import Mathlib
import PipelineScript.Proofs.Context.Assignment
import PipelineScript.Proofs.Statement.Binders

/-! # Names of the system in a context

What a context binds to the names that begin with a dollar sign. They are bound in the global scope
or not at all, and no operation changes what they are bound to, as long as it binds names of a
script: only the export does. -/

namespace PipelineScript

/-- The scope binds no name of the system. -/
def Scope.Plain (s : Scope) : Prop := ∀ name, IsSystemName name → Table.get? s.bindings name = none

/-- The bindings of the system names are those that `system` gives. -/
def Scope.Binds (system : String → Option Binding) (s : Scope) : Prop :=
  ∀ name, IsSystemName name → Table.get? s.bindings name = system name

namespace Scope

variable {s : Scope} {system : String → Option Binding} {name : String}

theorem plain_iff_binds : s.Plain ↔ s.Binds fun _ => none := Iff.rfl

theorem Binds.bind (h : s.Binds system) (hname : ¬ IsSystemName name) (b : Binding) :
    (s.bind name b).Binds system := by
  intro other ho
  have hne : name ≠ other := by rintro rfl; exact hname ho
  rw [Scope.bind, Table.get?_insert, if_neg hne]
  exact h other ho

theorem Plain.bind (h : s.Plain) (hname : ¬ IsSystemName name) (b : Binding) :
    (s.bind name b).Plain :=
  plain_iff_binds.mpr ((plain_iff_binds.mp h).bind hname b)

theorem Binds.bind_update (h : s.Binds system) (name : String) (b : Binding) :
    (s.bind name b).Binds (Function.update system name (some b)) := by
  intro other ho
  rw [Scope.bind, Table.get?_insert]
  by_cases hne : name = other
  · subst hne; simp
  · rw [if_neg hne, Function.update_of_ne (Ne.symm hne)]
    exact h other ho

theorem plain_empty (kind : ScopeKind) : (Scope.empty kind).Plain := fun _ _ => rfl

end Scope

namespace Context

/-- The names of the system are bound as `system` says, in the global scope, and nowhere else. -/
structure Reserves (system : String → Option Binding) (c : Context) : Prop where
  inner : ∀ s ∈ c.inner, s.Plain
  global : c.global.Binds system

namespace Reserves

variable {c : Context} {system : String → Option Binding} {name : String}

/-- The bindings of the global scope are the ones in sight. -/
theorem binding? (h : c.Reserves system) (hname : IsSystemName name) :
    c.binding? name = system name := by
  have hinner : c.inner.findSome? (fun s => Table.get? s.bindings name) = none :=
    List.findSome?_eq_none_iff.mpr fun s hs => h.inner s hs name hname
  rw [Context.binding?, scopes, List.findSome?_append, hinner, ← h.global name hname]
  simp

theorem lookUp (h : c.Reserves system) (hname : IsSystemName name) :
    c.lookUp name = (system name).map Binding.value := by
  rw [Context.lookUp, h.binding? hname]

/-- The current scope is the global one or not. -/
theorem modifyCurrent (h : c.Reserves system) {f : Scope → Scope}
    (hf : ∀ s system, s.Binds system → (f s).Binds system) :
    (c.modifyCurrent f).Reserves system := by
  unfold Context.modifyCurrent
  split
  · exact ⟨h.inner, hf _ _ h.global⟩
  · rename_i s rest hinner
    obtain ⟨hs, hrest⟩ := List.forall_mem_cons.mp (hinner ▸ h.inner)
    refine ⟨List.forall_mem_cons.mpr ⟨?_, hrest⟩, h.global⟩
    exact Scope.plain_iff_binds.mpr (hf _ _ (Scope.plain_iff_binds.mp hs))

theorem declare (h : c.Reserves system) (hname : ¬ IsSystemName name) (v : Value)
    (declaredType : Option String) : (c.declare name v declaredType).Reserves system :=
  h.modifyCurrent fun _ _ hs => hs.bind hname _

/-- An assignment writes to the scope that binds the name, wherever that is. -/
theorem assign (h : c.Reserves system) (hname : ¬ IsSystemName name) (v : Value) :
    (c.assign name v).Reserves system := by
  unfold Context.assign
  split
  · rename_i inner ha
    obtain ⟨before, s, b, after, hi, -, -, rfl⟩ := assignIn_eq_some ha
    have hs : ∀ t ∈ before ++ s :: after, t.Plain := hi ▸ h.inner
    obtain ⟨hbefore, hrest⟩ := List.forall_mem_append.mp hs
    obtain ⟨hs, hafter⟩ := List.forall_mem_cons.mp hrest
    refine ⟨List.forall_mem_append.mpr ⟨hbefore, ?_⟩, h.global⟩
    exact List.forall_mem_cons.mpr ⟨hs.bind hname _, hafter⟩
  · split
    · exact ⟨h.inner, h.global.bind hname _⟩
    · exact h.declare hname v none

theorem push (h : c.Reserves system) (kind : ScopeKind) : (c.push kind).Reserves system :=
  ⟨List.forall_mem_cons.mpr ⟨Scope.plain_empty kind, h.inner⟩, h.global⟩

theorem popTo (h : c.Reserves system) (index : Nat) : (c.popTo index).Reserves system := by
  unfold Context.popTo
  split
  · exact h
  · exact ⟨fun s hs => h.inner s (List.mem_of_mem_drop hs), h.global⟩

theorem hoist (h : c.Reserves system) (nodes : List Statement) :
    (nodes.foldl Run.bindDefinition c).Reserves system := by
  induction nodes generalizing c with
  | nil => exact h
  | cons s rest ih =>
    refine ih ?_
    unfold Run.bindDefinition
    split
    · exact h.modifyCurrent fun _ _ hs => hs
    · exact h

theorem bindParams {params : List String} (h : c.Reserves system)
    (hparams : ∀ p ∈ params, ¬ IsSystemName p) (args : List Value) :
    (Run.bindParams params args c).Reserves system := by
  induction params generalizing args c with
  | nil => exact h
  | cons param params ih =>
    obtain ⟨hparam, hparams⟩ := List.forall_mem_cons.mp hparams
    cases args with
    | nil => exact h
    | cons arg args => exact ih (h.declare hparam arg none) hparams args

/-- The export is the one name of the system that a run binds. -/
theorem setExport (h : c.Reserves system) (v : Value) :
    (c.setExport v).Reserves (Function.update system exportName (some ⟨v, none⟩)) :=
  ⟨h.inner, h.global.bind_update _ _⟩

theorem takeExport (h : c.Reserves system) :
    c.takeExport.1 = (system exportName).map Binding.value ∧
      c.takeExport.2.Reserves (Function.update system exportName none) := by
  refine ⟨congrArg (Option.map Binding.value) (h.global exportName rfl), h.inner, ?_⟩
  intro name hname
  rw [Context.takeExport, Table.get?_erase]
  by_cases hne : exportName = name
  · subst hne; simp
  · rw [if_neg hne, Function.update_of_ne (Ne.symm hne)]
    exact h.global name hname

end Reserves

/-- What a host binds to the names of the system. -/
def hostSystem (host : HostValues) (name : String) : Option Binding :=
  Table.get? (ofHost host).global.bindings name

theorem reserves_ofHost (host : HostValues) : (ofHost host).Reserves (hostSystem host) :=
  ⟨List.forall_mem_nil _, fun _ _ => rfl⟩

theorem seedName_eq_exportName_iff {name : String} :
    seedName name = exportName ↔ name = exportName := by
  unfold seedName
  split <;> simp [poolName, exportName]

/-- A name stays unbound if the host has no value for it. -/
theorem seeds_eq_none_iff (host : HostValues) (name : String) (s : Scope) :
    Table.get? (host.foldl (fun s (n, v) => s.bind (seedName n) ⟨v, none⟩) s).bindings name = none ↔
      Table.get? s.bindings name = none ∧ ∀ entry ∈ host, seedName entry.1 ≠ name := by
  induction host generalizing s with
  | nil => simp
  | cons entry rest ih =>
    have hbind : Table.get? (s.bind (seedName entry.1) ⟨entry.2, none⟩).bindings name =
        if seedName entry.1 = name then some ⟨entry.2, none⟩ else Table.get? s.bindings name :=
      Table.get?_insert _ _ _ _
    rw [List.foldl_cons, ih, hbind, List.forall_mem_cons]
    by_cases hname : seedName entry.1 = name <;> simp [hname]

/-- No other value of a host is taken for the export than one of that very name. -/
theorem hostSystem_exportName_iff (host : HostValues) :
    hostSystem host exportName = none ↔ ∀ entry ∈ host, entry.1 ≠ exportName := by
  refine (seeds_eq_none_iff host exportName _).trans ?_
  simp [Scope.empty, Table.get?, seedName_eq_exportName_iff]

end Context

end PipelineScript
