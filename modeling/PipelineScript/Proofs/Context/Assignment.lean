import PipelineScript.Run

/-! # Writing to scopes

Where an operation on a context writes: into the current scope, or, with an assignment, into the
innermost scope that binds the name (`scopes_assign`). -/

namespace PipelineScript.Context

variable {c : Context}

theorem mem_scopes_of_popTo {index : Nat} {s : Scope} (hs : s ∈ (c.popTo index).scopes) :
    s ∈ c.scopes := by
  unfold Context.popTo at hs
  split at hs
  · exact hs
  · obtain hs | hs := List.mem_append.mp hs
    · exact List.mem_append_left _ (List.mem_of_mem_drop hs)
    · exact List.mem_append_right _ hs

/-- The current scope is the head of the scopes. -/
theorem scopes_modifyCurrent (c : Context) (f : Scope → Scope) :
    ∃ s rest, c.scopes = s :: rest ∧ (c.modifyCurrent f).scopes = f s :: rest := by
  unfold modifyCurrent
  split
  · rename_i h; exact ⟨c.global, [], by simp [scopes, h], by simp [scopes, h]⟩
  · rename_i s rest h; exact ⟨s, rest ++ [c.global], by simp [scopes, h], rfl⟩

/-- An assignment among inner scopes finds the innermost binding of the name. -/
theorem assignIn_eq_some {name : String} {v : Value} {inner inner' : List Scope}
    (h : assignIn name v inner = some inner') :
    ∃ before s b after, inner = before ++ s :: after ∧
      (∀ r ∈ before, Table.get? r.bindings name = none) ∧ Table.get? s.bindings name = some b ∧
      inner' = before ++ s.bind name { b with value := v } :: after := by
  induction inner generalizing inner' with
  | nil => simp [assignIn] at h
  | cons s rest ih =>
    unfold assignIn at h
    split at h
    · rename_i b hb
      cases h
      exact ⟨[], s, b, rest, rfl, by simp, hb, rfl⟩
    · rename_i hn
      obtain ⟨rest', hrest, rfl⟩ := Option.map_eq_some_iff.mp h
      obtain ⟨before, t, b, after, rfl, hbefore, hb, rfl⟩ := ih hrest
      exact ⟨s :: before, t, b, after, rfl, List.forall_mem_cons.mpr ⟨hn, hbefore⟩, hb, rfl⟩

theorem assignIn_eq_none {name : String} {v : Value} {inner : List Scope}
    (h : assignIn name v inner = none) : ∀ r ∈ inner, Table.get? r.bindings name = none := by
  induction inner with
  | nil => simp
  | cons s rest ih =>
    unfold assignIn at h
    split at h
    · cases h
    · exact List.forall_mem_cons.mpr ⟨‹_›, ih (Option.map_eq_none_iff.mp h)⟩

/-- The innermost binding is looked up past scopes without one. -/
theorem binding?_eq_of_scopes {before after : List Scope} {s : Scope} {name : String}
    (hc : c.scopes = before ++ s :: after)
    (hbefore : ∀ r ∈ before, Table.get? r.bindings name = none)
    {b : Binding} (hb : Table.get? s.bindings name = some b) : c.binding? name = some b := by
  rw [binding?, hc, List.findSome?_append, List.findSome?_eq_none_iff.mpr hbefore]
  simp [hb]

/-- An assignment changes the value of the innermost binding, or else declares the name. -/
theorem scopes_assign_innermost (c : Context) (name : String) (v : Value) :
    (∃ before s b after, c.scopes = before ++ s :: after ∧
      (∀ r ∈ before, Table.get? r.bindings name = none) ∧ Table.get? s.bindings name = some b ∧
      (c.assign name v).scopes = before ++ s.bind name { b with value := v } :: after) ∨
    ((∀ r ∈ c.scopes, Table.get? r.bindings name = none) ∧
      c.assign name v = c.declare name v none) := by
  unfold Context.assign
  split
  · rename_i inner ha
    obtain ⟨before, s, b, after, hi, hbefore, hb, rfl⟩ := assignIn_eq_some ha
    exact .inl ⟨before, s, b, after ++ [c.global], by simp [scopes, hi], hbefore, hb,
      by simp [scopes]⟩
  · rename_i hn
    have hinner := assignIn_eq_none hn
    split
    · rename_i b hb
      exact .inl ⟨c.inner, c.global, b, [], rfl, hinner, hb, rfl⟩
    · rename_i hg
      exact .inr ⟨List.forall_mem_append.mpr ⟨hinner, List.forall_mem_singleton.mpr hg⟩, rfl⟩

/-- The binding that an assignment changes is the one in sight. -/
theorem scopes_assign (c : Context) (name : String) (v : Value) :
    (∃ before s b after, c.scopes = before ++ s :: after ∧ c.binding? name = some b ∧
      Table.get? s.bindings name = some b ∧
      (c.assign name v).scopes = before ++ s.bind name { b with value := v } :: after) ∨
    (c.binding? name = none ∧ c.assign name v = c.declare name v none) := by
  obtain ⟨before, s, b, after, hc, hbefore, hb, hc'⟩ | ⟨hnone, hc'⟩ :=
    c.scopes_assign_innermost name v
  · exact .inl ⟨before, s, b, after, hc, binding?_eq_of_scopes hc hbefore hb, hb, hc'⟩
  · exact .inr ⟨List.findSome?_eq_none_iff.mpr hnone, hc'⟩

/-- The counters of a context are not written to. -/
theorem counters_assign (c : Context) (name : String) (v : Value) :
    (c.assign name v).loopDepth = c.loopDepth ∧ (c.assign name v).callDepth = c.callDepth := by
  unfold Context.assign declare modifyCurrent
  split
  · exact ⟨rfl, rfl⟩
  · split
    · exact ⟨rfl, rfl⟩
    · split <;> exact ⟨rfl, rfl⟩

end PipelineScript.Context
