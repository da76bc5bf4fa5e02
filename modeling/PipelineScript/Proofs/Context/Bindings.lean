import PipelineScript.Proofs.Context.Assignment

/-! # What all bindings have in common

A property of all live bindings is kept by every operation on a context that binds only what has
the property. An assignment keeps the declared type of the binding that it changes. -/

namespace PipelineScript

/-- All bindings of the scope have the property. -/
def Scope.AllBound (P : Binding → Prop) (s : Scope) : Prop :=
  ∀ name b, Table.get? s.bindings name = some b → P b

variable {P : Binding → Prop}

theorem Scope.AllBound.bind {s : Scope} (h : s.AllBound P) (name : String) {b : Binding}
    (hb : P b) : (s.bind name b).AllBound P := by
  intro other b' hb'
  simp only [Scope.bind, Table.get?_insert] at hb'
  split at hb'
  · cases hb'; exact hb
  · exact h other b' hb'

theorem Scope.allBound_empty (kind : ScopeKind) : (Scope.empty kind).AllBound P :=
  fun _ _ hb => by cases hb

namespace Context

/-- All live bindings have the property. -/
def AllBound (P : Binding → Prop) (c : Context) : Prop := ∀ s ∈ c.scopes, s.AllBound P

variable {c : Context}

theorem AllBound.of_binding? (h : c.AllBound P) {name : String} {b : Binding}
    (hb : c.binding? name = some b) : P b := by
  obtain ⟨s, hs, hb⟩ := List.exists_of_findSome?_eq_some hb
  exact h s hs name b hb

theorem AllBound.modifyCurrent (h : c.AllBound P) {f : Scope → Scope}
    (hf : ∀ s : Scope, s.AllBound P → (f s).AllBound P) : (c.modifyCurrent f).AllBound P := by
  obtain ⟨s, rest, hc, hc'⟩ := c.scopes_modifyCurrent f
  intro t ht
  rw [hc'] at ht
  obtain rfl | ht := List.mem_cons.mp ht
  · exact hf s (h s (by simp [hc]))
  · exact h t (by simp [hc, ht])

theorem AllBound.push (h : c.AllBound P) (kind : ScopeKind) : (c.push kind).AllBound P := by
  intro t ht
  obtain rfl | ht := List.mem_cons.mp (show t ∈ Scope.empty kind :: c.scopes from ht)
  · exact Scope.allBound_empty kind
  · exact h t ht

theorem AllBound.popTo (h : c.AllBound P) (index : Nat) : (c.popTo index).AllBound P :=
  fun t ht => h t (mem_scopes_of_popTo ht)

theorem AllBound.declare (h : c.AllBound P) (name : String) {v : Value}
    {declaredType : Option String} (hv : P ⟨v, declaredType⟩) :
    (c.declare name v declaredType).AllBound P :=
  h.modifyCurrent fun _ hs => hs.bind name hv

theorem AllBound.assign (h : c.AllBound P) (name : String) {v : Value}
    (hv : ∀ declaredType, P ⟨v, declaredType⟩) : (c.assign name v).AllBound P := by
  obtain ⟨before, s, b, after, hc, -, -, hc'⟩ | ⟨-, hc'⟩ := c.scopes_assign name v
  · intro t ht
    rw [hc'] at ht
    obtain ht | ht := List.mem_append.mp ht
    · exact h t (by simp [hc, ht])
    obtain rfl | ht := List.mem_cons.mp ht
    · exact (h s (by simp [hc])).bind name (hv b.declaredType)
    · exact h t (by simp [hc, ht])
  · rw [hc']
    exact h.declare name (hv none)

theorem AllBound.setExport (h : c.AllBound P) {v : Value} (hv : P ⟨v, none⟩) :
    (c.setExport v).AllBound P := by
  intro t ht
  obtain ht | ht := List.mem_append.mp ht
  · exact h t (List.mem_append_left _ ht)
  · obtain rfl := List.mem_singleton.mp ht
    exact (h c.global (by simp [scopes])).bind _ hv

theorem AllBound.hoist (h : c.AllBound P) (nodes : List Statement) :
    (nodes.foldl Run.bindDefinition c).AllBound P := by
  induction nodes generalizing c with
  | nil => exact h
  | cons s rest ih =>
    refine ih ?_
    unfold Run.bindDefinition
    split
    · exact h.modifyCurrent fun _ hs => hs
    · exact h

theorem AllBound.bindParams (h : c.AllBound P) (params : List String) {args : List Value}
    (hargs : ∀ arg ∈ args, P ⟨arg, none⟩) : (Run.bindParams params args c).AllBound P := by
  induction params generalizing args c with
  | nil => exact h
  | cons param params ih =>
    cases args with
    | nil => exact h
    | cons arg args =>
      obtain ⟨harg, hrest⟩ := List.forall_mem_cons.mp hargs
      exact ih (h.declare param harg) hrest

theorem allBound_ofHost {host : HostValues} (h : ∀ entry ∈ host, P ⟨entry.2, none⟩) :
    (ofHost host).AllBound P := by
  intro s hs
  obtain rfl := List.mem_singleton.mp (show s ∈ [(ofHost host).global] from hs)
  exact List.foldlRecOn (motive := Scope.AllBound P) host _ (Scope.allBound_empty .global)
    fun _ hs entry hentry => hs.bind _ (h entry hentry)

end Context

end PipelineScript
