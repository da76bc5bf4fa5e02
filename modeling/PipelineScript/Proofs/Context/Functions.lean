import PipelineScript.Proofs.Context.Assignment

/-! # What the functions of a context have in common

The statements that names of functions stand for, in whatever scope. Only hoisting adds to them:
after every other operation the functions of a scope are those of a scope before, or none. -/

namespace PipelineScript.Context

/-- All statements that names of functions stand for have the property. -/
def Knows (P : Statement → Prop) (c : Context) : Prop :=
  ∀ s ∈ c.scopes, ∀ name f, Table.get? s.functions name = some f → P f

variable {P : Statement → Prop} {c c' : Context}

/-- No scope knows more functions than some scope before. -/
theorem Knows.of_scopes (h : c.Knows P)
    (hs : ∀ t ∈ c'.scopes, t.functions = [] ∨ ∃ s ∈ c.scopes, t.functions = s.functions) :
    c'.Knows P := by
  intro t ht name f hf
  obtain he | ⟨s, hs, he⟩ := hs t ht
  · simp [he, Table.get?] at hf
  · exact h s hs name f (he ▸ hf)

theorem Knows.of_function? (h : c.Knows P) {name : String} {f : Statement}
    (hf : c.function? name = some f) : P f := by
  obtain ⟨s, hs, hf⟩ := List.exists_of_findSome?_eq_some hf
  exact h s hs name f hf

theorem Knows.push (h : c.Knows P) (kind : ScopeKind) : (c.push kind).Knows P :=
  h.of_scopes fun t ht => by
    obtain rfl | ht := List.mem_cons.mp (show t ∈ Scope.empty kind :: c.scopes from ht)
    · exact .inl rfl
    · exact .inr ⟨t, ht, rfl⟩

theorem Knows.popTo (h : c.Knows P) (index : Nat) : (c.popTo index).Knows P :=
  h.of_scopes fun t ht => .inr ⟨t, mem_scopes_of_popTo ht, rfl⟩

theorem Knows.declare (h : c.Knows P) (name : String) (v : Value) (declaredType : Option String) :
    (c.declare name v declaredType).Knows P := by
  obtain ⟨s, rest, hc, hc'⟩ := c.scopes_modifyCurrent fun s => s.bind name ⟨v, declaredType⟩
  refine h.of_scopes fun t ht => .inr ?_
  rw [Context.declare, hc'] at ht
  rw [hc]
  obtain rfl | ht := List.mem_cons.mp ht
  · exact ⟨s, by simp, rfl⟩
  · exact ⟨t, by simp [ht], rfl⟩

theorem Knows.bindFunction (h : c.Knows P) (name : String) {f : Statement} (hf : P f) :
    (c.bindFunction name f).Knows P := by
  obtain ⟨s, rest, hc, hc'⟩ := c.scopes_modifyCurrent fun s =>
    { s with functions := Table.insert s.functions name f }
  intro t ht other g hg
  rw [Context.bindFunction, hc'] at ht
  obtain rfl | ht := List.mem_cons.mp ht
  · rw [Table.get?_insert] at hg
    split at hg
    · cases hg; exact hf
    · exact h s (by simp [hc]) other g hg
  · exact h t (by simp [hc, ht]) other g hg

theorem Knows.assign (h : c.Knows P) (name : String) (v : Value) : (c.assign name v).Knows P := by
  obtain ⟨before, s, b, after, hc, -, -, hc'⟩ | ⟨-, hc'⟩ := c.scopes_assign name v
  · refine h.of_scopes fun t ht => .inr ?_
    rw [hc'] at ht
    obtain ht | ht := List.mem_append.mp ht
    · exact ⟨t, by simp [hc, ht], rfl⟩
    obtain rfl | ht := List.mem_cons.mp ht
    · exact ⟨s, by simp [hc], rfl⟩
    · exact ⟨t, by simp [hc, ht], rfl⟩
  · rw [hc']
    exact h.declare name v none

theorem Knows.setExport (h : c.Knows P) (v : Value) : (c.setExport v).Knows P :=
  h.of_scopes fun t ht => .inr (by
    obtain ht | ht := List.mem_append.mp ht
    · exact ⟨t, List.mem_append_left _ ht, rfl⟩
    · obtain rfl := List.mem_singleton.mp ht
      exact ⟨c.global, by simp [scopes], rfl⟩)

/-- Definitions of a list that have the property. -/
theorem Knows.hoist {nodes : List Statement} (h : c.Knows P)
    (hn : ∀ s ∈ nodes, ∀ name params, s.kind = .function name params → P s) :
    (nodes.foldl Run.bindDefinition c).Knows P := by
  induction nodes generalizing c with
  | nil => exact h
  | cons s rest ih =>
    refine ih ?_ fun t ht => hn t (by simp [ht])
    unfold Run.bindDefinition
    split
    · rename_i hk; exact h.bindFunction _ (hn s (by simp) _ _ hk)
    · exact h

theorem Knows.bindParams (h : c.Knows P) (params : List String) (args : List Value) :
    (Run.bindParams params args c).Knows P := by
  induction params generalizing args c with
  | nil => exact h
  | cons param params ih =>
    cases args with
    | nil => exact h
    | cons arg args => exact ih (h.declare param arg none) args

theorem knows_ofHost (host : HostValues) : (ofHost host).Knows P := by
  intro s hs name f hf
  obtain rfl := List.mem_singleton.mp (show s ∈ [(ofHost host).global] from hs)
  have hg : (ofHost host).global.functions = [] := by
    refine List.foldlRecOn (motive := fun s : Scope => s.functions = []) host _ rfl ?_
    exact fun s hs entry _ => hs
  rw [hg] at hf
  cases hf

end PipelineScript.Context
