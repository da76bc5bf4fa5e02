import Mathlib
import PipelineScript.Proofs.Context.Assignment

/-! # Contexts that agree on some names

Two contexts agree on a set of names if, scope by scope, they bind these names alike and know the
same functions. Every operation keeps the agreement, but an assignment has to be to one of the
names: where it writes depends on the scopes that bind its name. -/

namespace PipelineScript

/-- The scopes bind the names alike; other names may be bound to anything, or not at all. -/
structure Scope.Agree (P : String → Prop) (s t : Scope) : Prop where
  functions : t.functions = s.functions
  bindings : ∀ name, P name → Table.get? t.bindings name = Table.get? s.bindings name

namespace Scope.Agree

variable {P : String → Prop} {s t : Scope}

theorem refl (s : Scope) : s.Agree P s := ⟨rfl, fun _ _ => rfl⟩

/-- The same binding in both, of whatever name. -/
theorem bind (h : s.Agree P t) (name : String) (b : Binding) :
    (s.bind name b).Agree P (t.bind name b) := by
  refine ⟨h.functions, fun other ho => ?_⟩
  simp only [Scope.bind, Table.get?_insert]
  split
  · rfl
  · exact h.bindings other ho

end Scope.Agree

namespace Context

structure Agree (P : String → Prop) (c d : Context) : Prop where
  inner : List.Forall₂ (Scope.Agree P) c.inner d.inner
  global : c.global.Agree P d.global
  imports : d.imports = c.imports
  loopDepth : d.loopDepth = c.loopDepth

variable {P : String → Prop} {c d : Context}

/-- What is first found in scopes that agree is the same. -/
theorem findSome?_agree {α : Type} {f : Scope → Option α}
    (hf : ∀ s t : Scope, s.Agree P t → f t = f s) {ss ts : List Scope}
    (h : List.Forall₂ (Scope.Agree P) ss ts) : ts.findSome? f = ss.findSome? f := by
  induction h with
  | nil => rfl
  | cons hst _ ih => rw [List.findSome?_cons, List.findSome?_cons, hf _ _ hst, ih]

/-- An assignment to one of the names goes to the same scope, if to any. -/
theorem assignIn_agree {name : String} (hname : P name) (v : Value) {ss ts : List Scope}
    (h : List.Forall₂ (Scope.Agree P) ss ts) :
    Option.Rel (List.Forall₂ (Scope.Agree P)) (assignIn name v ss) (assignIn name v ts) := by
  induction h with
  | nil => exact .none
  | @cons s t ss ts hst hrest ih =>
    unfold assignIn
    rw [hst.bindings name hname]
    cases Table.get? s.bindings name with
    | some b => exact .some (.cons (hst.bind name _) hrest)
    | none =>
      dsimp only
      generalize assignIn name v ss = r, assignIn name v ts = r' at ih
      cases ih with
      | none => exact .none
      | some h => exact .some (.cons hst h)

namespace Agree

theorem refl (c : Context) : c.Agree P c :=
  ⟨List.forall₂_same.mpr fun s _ => .refl s, .refl _, rfl, rfl⟩

/-! ## What agreement lets see -/

theorem scopes (h : c.Agree P d) : List.Forall₂ (Scope.Agree P) c.scopes d.scopes :=
  List.rel_append h.inner (.cons h.global .nil)

theorem depth (h : c.Agree P d) : d.depth = c.depth :=
  congrArg (· + 1) h.inner.length_eq.symm

theorem binding? (h : c.Agree P d) {name : String} (hname : P name) :
    d.binding? name = c.binding? name :=
  findSome?_agree (fun _ _ hst => hst.bindings name hname) h.scopes

theorem lookUp (h : c.Agree P d) {name : String} (hname : P name) :
    d.lookUp name = c.lookUp name := congrArg (Option.map Binding.value) (h.binding? hname)

theorem function? (h : c.Agree P d) (name : String) : d.function? name = c.function? name :=
  findSome?_agree (fun _ _ hst => by rw [hst.functions]) h.scopes

theorem pool? (h : c.Agree P d) (hpool : P poolName) : d.pool? = c.pool? :=
  congrArg (· >>= Value.asText?) (h.lookUp hpool)

theorem resolve (h : c.Agree P d) (name : String) : d.resolve name = c.resolve name := by
  rw [Context.resolve, Context.resolve, h.imports]

/-! ## Operations -/

theorem push (h : c.Agree P d) (kind : ScopeKind) : (c.push kind).Agree P (d.push kind) :=
  ⟨.cons (.refl _) h.inner, h.global, h.imports, h.loopDepth⟩

theorem popTo (h : c.Agree P d) (index : Nat) : (c.popTo index).Agree P (d.popTo index) := by
  unfold Context.popTo
  rw [h.depth]
  split
  · exact h
  · exact ⟨List.forall₂_drop _ h.inner, h.global, h.imports, h.loopDepth⟩

theorem modifyCurrent (h : c.Agree P d) {f : Scope → Scope}
    (hf : ∀ s t : Scope, s.Agree P t → (f s).Agree P (f t)) :
    (c.modifyCurrent f).Agree P (d.modifyCurrent f) := by
  obtain ⟨inner, global, imports, loopDepth, callDepth⟩ := c
  obtain ⟨inner', global', imports', loopDepth', callDepth'⟩ := d
  obtain ⟨hinner, hglobal, himports, hloop⟩ := h
  unfold Context.modifyCurrent
  dsimp only at hinner hglobal himports hloop
  cases hinner with
  | nil => exact ⟨.nil, hf _ _ hglobal, himports, hloop⟩
  | cons hst hrest => exact ⟨.cons (hf _ _ hst) hrest, hglobal, himports, hloop⟩

theorem declare (h : c.Agree P d) (name : String) (v : Value) (declaredType : Option String) :
    (c.declare name v declaredType).Agree P (d.declare name v declaredType) :=
  h.modifyCurrent fun _ _ hst => hst.bind name _

theorem addImport (h : c.Agree P d) (localName path : String) :
    (c.addImport localName path).Agree P (d.addImport localName path) :=
  ⟨h.inner, h.global, by rw [Context.addImport, Context.addImport, h.imports], h.loopDepth⟩

theorem assign (h : c.Agree P d) {name : String} (hname : P name) (v : Value) :
    (c.assign name v).Agree P (d.assign name v) := by
  have hinner := assignIn_agree hname v h.inner
  unfold Context.assign
  rw [h.global.bindings name hname]
  generalize assignIn name v c.inner = r, assignIn name v d.inner = r' at hinner
  cases hinner with
  | some hinner => exact ⟨hinner, h.global, h.imports, h.loopDepth⟩
  | none =>
    dsimp only
    split
    · exact ⟨h.inner, h.global.bind name _, h.imports, h.loopDepth⟩
    · exact h.declare name v none

theorem setExport (h : c.Agree P d) (v : Value) : (c.setExport v).Agree P (d.setExport v) :=
  ⟨h.inner, h.global.bind _ _, h.imports, h.loopDepth⟩

/-- The export itself is one of the names. -/
theorem takeExport (h : c.Agree P d) (hexport : P exportName) :
    d.takeExport.1 = c.takeExport.1 := by
  simp only [Context.takeExport, h.global.bindings _ hexport]

theorem bindDefinition (h : c.Agree P d) (s : Statement) :
    (Run.bindDefinition c s).Agree P (Run.bindDefinition d s) := by
  unfold Run.bindDefinition
  split
  · exact h.modifyCurrent fun _ _ hst => ⟨by rw [hst.functions], hst.bindings⟩
  · exact h

theorem hoist (h : c.Agree P d) (nodes : List Statement) :
    (nodes.foldl Run.bindDefinition c).Agree P (nodes.foldl Run.bindDefinition d) := by
  induction nodes generalizing c d with
  | nil => exact h
  | cons s rest ih => exact ih (h.bindDefinition s)

theorem bindParams (h : c.Agree P d) (params : List String) (args : List Value) :
    (Run.bindParams params args c).Agree P (Run.bindParams params args d) := by
  induction params generalizing args c d with
  | nil => exact h
  | cons param params ih =>
    cases args with
    | nil => exact h
    | cons arg args => exact ih (h.declare param arg none) args

theorem enterLoop (h : c.Agree P d) : c.enterLoop.Agree P d.enterLoop :=
  ⟨h.inner, h.global, h.imports, congrArg (· + 1) h.loopDepth⟩

theorem exitLoop (h : c.Agree P d) : c.exitLoop.Agree P d.exitLoop :=
  ⟨h.inner, h.global, h.imports, congrArg (· - 1) h.loopDepth⟩

theorem enterFunction (h : c.Agree P d) : c.enterFunction.Agree P d.enterFunction :=
  ⟨h.inner, h.global, h.imports, rfl⟩

theorem exitFunction (h : c.Agree P d) (loopDepth : Nat) :
    (c.exitFunction loopDepth).Agree P (d.exitFunction loopDepth) :=
  ⟨h.inner, h.global, h.imports, rfl⟩

end Agree

/-- A host hands over values, but no declared types. -/
theorem binding?_ofHost (host : HostValues) (name : String) :
    Table.get? (ofHost host).global.bindings name =
      ((ofHost host).lookUp name).map fun v => ⟨v, none⟩ := by
  have huntyped : ∀ b, Table.get? (ofHost host).global.bindings name = some b →
      b.declaredType = none := by
    refine List.foldlRecOn (motive := fun s : Scope =>
      ∀ b, Table.get? s.bindings name = some b → b.declaredType = none) host _ (by rintro _ ⟨⟩) ?_
    intro s hs entry _ b hb
    simp only [Scope.bind, Table.get?_insert] at hb
    split at hb
    · cases hb; rfl
    · exact hs b hb
  have hlook : (ofHost host).lookUp name =
      (Table.get? (ofHost host).global.bindings name).map Binding.value := by
    rw [Context.lookUp, Context.binding?]
    show (List.findSome? _ [(ofHost host).global]).map _ = _
    rw [List.findSome?_singleton]
  rw [hlook]
  cases hb : Table.get? (ofHost host).global.bindings name with
  | none => rfl
  | some b => rw [Option.map_some, Option.map_some, ← huntyped b hb]

/-- Hosts that hand over the same values under the names. -/
theorem agree_ofHost {host host' : HostValues}
    (h : ∀ name, P name → (ofHost host').lookUp name = (ofHost host).lookUp name) :
    (ofHost host).Agree P (ofHost host') := by
  have hfunctions (host : HostValues) : (ofHost host).global.functions = [] :=
    List.foldlRecOn (motive := fun s : Scope => s.functions = []) host _ rfl fun _ hs _ _ => hs
  refine ⟨.nil, ⟨?_, fun name hname => ?_⟩, rfl, rfl⟩
  · rw [hfunctions, hfunctions]
  · rw [binding?_ofHost, binding?_ofHost, h name hname]

end Context

end PipelineScript
