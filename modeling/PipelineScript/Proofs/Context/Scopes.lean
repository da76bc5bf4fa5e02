import PipelineScript.Proofs.Context.Assignment

/-! # Scopes by number

What every operation on a context does to its scopes, counted from the global one, and to its
counters. Two scopes are alike if they differ in values alone: they bind the same names, declared
as the same types, and know the same functions. The export of a run is kept in the global scope and
does not count. -/

namespace PipelineScript

/-- Scope `i` may have become `t` without a change of its names. -/
structure Scope.Alike (i : Nat) (s t : Scope) : Prop where
  kind : t.kind = s.kind
  functions : t.functions = s.functions
  declared : ∀ name, ¬ (i = 0 ∧ name = Context.exportName) →
    (Table.get? t.bindings name).map Binding.declaredType =
      (Table.get? s.bindings name).map Binding.declaredType

namespace Scope.Alike

variable {i : Nat} {r s t : Scope}

theorem refl (i : Nat) (s : Scope) : Alike i s s := ⟨rfl, rfl, fun _ _ => rfl⟩

theorem trans (h : Alike i r s) (h' : Alike i s t) : Alike i r t :=
  ⟨h'.kind.trans h.kind, h'.functions.trans h.functions,
    fun name hn => (h'.declared name hn).trans (h.declared name hn)⟩

/-- A new value for a name that is bound. -/
theorem rebind (i : Nat) {b : Binding} {name : String} (hb : Table.get? s.bindings name = some b)
    (v : Value) : Alike i s (s.bind name { b with value := v }) := by
  refine ⟨rfl, rfl, fun other _ => ?_⟩
  simp only [Scope.bind, Table.get?_insert]
  split
  · rename_i h; subst h; simp [hb]
  · rfl

/-- The export is no name of a script. -/
theorem export_ (s : Scope) (b : Binding) : Alike 0 s (s.bind Context.exportName b) := by
  refine ⟨rfl, rfl, fun other ho => ?_⟩
  have hne : Context.exportName ≠ other := fun h => ho ⟨rfl, h.symm⟩
  simp [Scope.bind, Table.get?_insert, hne]

end Scope.Alike

namespace Context

variable (c : Context)

theorem scope?_zero : c.scope? 0 = some c.global := by simp [scope?, scopes]

theorem scope?_succ (i : Nat) : c.scope? (i + 1) = c.inner.reverse[i]? := by
  simp [scope?, scopes]

theorem scope?_isSome {i : Nat} (h : i < c.depth) : ∃ s, c.scope? i = some s := by
  refine ⟨_, List.getElem?_eq_getElem (l := c.scopes.reverse) ?_⟩
  simpa [scopes, depth] using h

theorem depth_pos : 0 < c.depth := Nat.succ_pos _

/-! ## Opening and leaving scopes -/

@[simp] theorem depth_push (kind : ScopeKind) : (c.push kind).depth = c.depth + 1 := by
  simp [push, depth]

theorem scope?_push {i : Nat} (h : i < c.depth) (kind : ScopeKind) :
    (c.push kind).scope? i = c.scope? i := by
  cases i with
  | zero => simp [scope?_zero, push]
  | succ i =>
    have hi : i < c.inner.length := by simpa [depth] using h
    simp [scope?_succ, push, List.getElem?_append_left, hi]

theorem inner_popTo {index : Nat} (h : 0 < index) :
    (c.popTo index).inner = c.inner.drop (c.depth - index) := by
  simp [popTo, Nat.ne_of_gt h]

theorem depth_popTo {index : Nat} (h : 0 < index) (hi : index ≤ c.depth) :
    (c.popTo index).depth = index := by
  have := c.inner_popTo h
  simp only [depth, this, List.length_drop] at *
  omega

theorem scope?_popTo {i index : Nat} (h : i < index) (hi : index ≤ c.depth) :
    (c.popTo index).scope? i = c.scope? i := by
  have hp : 0 < index := by omega
  cases i with
  | zero => simp [scope?_zero, popTo, Nat.ne_of_gt hp]
  | succ i =>
    rw [scope?_succ, scope?_succ, c.inner_popTo hp]
    have hl : i < c.inner.length - (c.depth - index) := by
      simp only [depth] at *; omega
    rw [List.reverse_drop, List.getElem?_take_of_lt hl]

theorem popTo_push (kind : ScopeKind) : (c.push kind).popTo c.depth = c := by
  simp [popTo, push, depth]

@[simp] theorem loopDepth_popTo (index : Nat) : (c.popTo index).loopDepth = c.loopDepth := by
  unfold popTo; split <;> rfl

@[simp] theorem callDepth_popTo (index : Nat) : (c.popTo index).callDepth = c.callDepth := by
  unfold popTo; split <;> rfl

/-! ## The current scope -/

@[simp] theorem depth_modifyCurrent (f : Scope → Scope) : (c.modifyCurrent f).depth = c.depth := by
  unfold modifyCurrent
  split
  · rfl
  · rename_i h; simp [depth, h]

@[simp] theorem loopDepth_modifyCurrent (f : Scope → Scope) :
    (c.modifyCurrent f).loopDepth = c.loopDepth := by
  unfold modifyCurrent; split <;> rfl

@[simp] theorem callDepth_modifyCurrent (f : Scope → Scope) :
    (c.modifyCurrent f).callDepth = c.callDepth := by
  unfold modifyCurrent; split <;> rfl

/-- All scopes around the current one stay. -/
theorem scope?_modifyCurrent {i : Nat} (h : i + 1 < c.depth) (f : Scope → Scope) :
    (c.modifyCurrent f).scope? i = c.scope? i := by
  unfold modifyCurrent
  split
  · rename_i hc; simp [depth, hc] at h
  · rename_i s rest hc
    cases i with
    | zero => simp [scope?_zero]
    | succ i =>
      have hi : i < rest.length := by simpa [depth, hc] using h
      simp [scope?_succ, hc, List.getElem?_append_left, hi]

/-! ## Values -/

theorem depth_eq_length : c.depth = c.scopes.length := by simp [depth, scopes]

/-- All scopes but one stay, and that one keeps its names. -/
theorem scope?_alike_of_scopes {c c' : Context} {before after : List Scope} {s t : Scope}
    (hc : c.scopes = before ++ s :: after) (hc' : c'.scopes = before ++ t :: after)
    (ha : ∀ i, s.Alike i t) {i : Nat} {r : Scope} (hr : c.scope? i = some r) :
    ∃ r', c'.scope? i = some r' ∧ r.Alike i r' := by
  simp only [scope?, hc, hc', List.reverse_append, List.reverse_cons, List.append_assoc,
    List.getElem?_append, List.length_reverse] at hr ⊢
  by_cases hi : i < after.length
  · simp only [hi, if_true] at hr ⊢
    exact ⟨r, hr, .refl i r⟩
  · simp only [hi, if_false] at hr ⊢
    cases h : i - after.length with
    | zero =>
      simp only [h] at hr ⊢
      cases hr
      exact ⟨t, rfl, ha i⟩
    | succ k =>
      simp only [h] at hr ⊢
      exact ⟨r, by simpa using hr, .refl i r⟩

/-! ## Changes of the current scope -/

/-- Nothing but values and the current scope has changed. -/
structure SameOutside (c c' : Context) : Prop where
  depth : c'.depth = c.depth
  loopDepth : c'.loopDepth = c.loopDepth
  callDepth : c'.callDepth = c.callDepth
  scopes : ∀ i, i + 1 < c.depth → ∀ s, c.scope? i = some s →
    ∃ t, c'.scope? i = some t ∧ s.Alike i t

namespace SameOutside

variable {c} {c' c'' : Context}

theorem refl (c : Context) : c.SameOutside c :=
  ⟨rfl, rfl, rfl, fun i _ s hs => ⟨s, hs, .refl i s⟩⟩

theorem trans (h : c.SameOutside c') (h' : c'.SameOutside c'') : c.SameOutside c'' := by
  refine ⟨h'.depth.trans h.depth, h'.loopDepth.trans h.loopDepth, h'.callDepth.trans h.callDepth,
    fun i hi r hr => ?_⟩
  obtain ⟨s, hs, hrs⟩ := h.scopes i hi r hr
  obtain ⟨t, ht, hst⟩ := h'.scopes i (by rwa [h.depth]) s hs
  exact ⟨t, ht, hrs.trans hst⟩

theorem modifyCurrent (c : Context) (f : Scope → Scope) : c.SameOutside (c.modifyCurrent f) :=
  ⟨c.depth_modifyCurrent f, c.loopDepth_modifyCurrent f, c.callDepth_modifyCurrent f,
    fun i hi s hs => ⟨s, (c.scope?_modifyCurrent hi f).trans hs, .refl i s⟩⟩

theorem declare (c : Context) (name : String) (v : Value) (declaredType : Option String) :
    c.SameOutside (c.declare name v declaredType) := modifyCurrent c _

theorem addImport (c : Context) (localName path : String) :
    c.SameOutside (c.addImport localName path) :=
  ⟨rfl, rfl, rfl, fun i _ s hs => ⟨s, hs, .refl i s⟩⟩

theorem setExport (c : Context) (v : Value) : c.SameOutside (c.setExport v) := by
  refine ⟨rfl, rfl, rfl, fun i _ s hs => ?_⟩
  cases i with
  | zero =>
    rw [scope?_zero] at hs
    cases hs
    exact ⟨_, scope?_zero _, .export_ _ _⟩
  | succ i => exact ⟨s, by rw [scope?_succ] at hs ⊢; exact hs, .refl _ s⟩

/-- A name is given a value in the scope that binds it, wherever that is. -/
theorem assign (c : Context) (name : String) (v : Value) : c.SameOutside (c.assign name v) := by
  obtain ⟨before, s, b, after, hc, -, hb, hc'⟩ | ⟨-, hc'⟩ := c.scopes_assign name v
  · obtain ⟨hl, hcall⟩ := c.counters_assign name v
    refine ⟨?_, hl, hcall, fun i _ r hr => ?_⟩
    · rw [depth_eq_length, depth_eq_length, hc, hc']; simp
    · exact scope?_alike_of_scopes hc hc' (fun i => .rebind i hb v) hr
  · rw [hc']
    exact declare c name v none

/-- Parameters are bound one after another in the current scope. -/
theorem bindParams (params : List String) (args : List Value) (c : Context) :
    c.SameOutside (Run.bindParams params args c) := by
  induction params generalizing args c with
  | nil => exact refl c
  | cons param params ih =>
    cases args with
    | nil => exact refl c
    | cons arg args => exact (declare c param arg none).trans (ih args _)

/-- Definitions are bound one after another in the current scope. -/
theorem hoist (nodes : List Statement) (c : Context) :
    c.SameOutside (nodes.foldl Run.bindDefinition c) := by
  induction nodes generalizing c with
  | nil => exact refl c
  | cons s rest ih =>
    have hs : c.SameOutside (Run.bindDefinition c s) := by
      unfold Run.bindDefinition
      split
      · exact modifyCurrent c _
      · exact refl c
    exact hs.trans (ih _)

end SameOutside

end Context

end PipelineScript
