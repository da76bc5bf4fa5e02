import PipelineScript.Statement

/-! # Where statements occur

A statement occurs in the tree of some statements below a chain of others. What is checked from a
list downward, with something handed down on the way, is checked of every statement that occurs in
it, with what its chain has handed down (`Statement.forall_occurs_iff`). -/

namespace PipelineScript.Statement

/-- The statement occurs in the tree of `nodes`, below the statements `above`. The first of these is
the one that it is a child of. -/
inductive Occurs (nodes : List Statement) : List Statement → Statement → Prop
  | top {s : Statement} : s ∈ nodes → Occurs nodes [] s
  | child {above : List Statement} {p s : Statement} :
      Occurs nodes above p → s ∈ p.children → Occurs nodes (p :: above) s

/-- What holds of a statement as soon as it holds of its children holds of all statements. -/
theorem induct {P : Statement → Prop} (h : ∀ s, (∀ t ∈ s.children, P t) → P s) : ∀ s, P s
  | ⟨kind, shape, line, children⟩ => h ⟨kind, shape, line, children⟩ fun t ht =>
    have : sizeOf t < sizeOf children := List.sizeOf_lt_of_mem ht
    induct h t
termination_by s => sizeOf s
decreasing_by simp only [mk.sizeOf_spec]; omega

variable {nodes above : List Statement} {s t : Statement}

/-- What occurs below one of the statements of a list occurs below the list. -/
theorem Occurs.inside (h : Occurs [t] above s) (ht : t ∈ nodes) : Occurs nodes above s := by
  induction h with
  | top hs => exact .top (List.mem_singleton.mp hs ▸ ht)
  | child _ hs ih => exact .child ih hs

theorem Occurs.under (h : Occurs t.children above s) : Occurs [t] (above ++ [t]) s := by
  induction h with
  | top hs => exact .child (.top (List.mem_singleton_self t)) hs
  | child _ hs ih => exact .child ih hs

/-- A check that goes from a statement to its children and hands something down. -/
theorem forall_occurs_iff {σ : Type} (good ok : σ → Statement → Prop) (down : σ → Statement → σ)
    (h : ∀ a s, good a s ↔ ok a s ∧ ∀ t ∈ s.children, good (down a s) t) (a : σ) :
    (∀ s ∈ nodes, good a s) ↔
      ∀ above s, Occurs nodes above s → ok (above.foldr (fun p b => down b p) a) s := by
  constructor
  · intro hgood
    have hall : ∀ above s, Occurs nodes above s →
        good (above.foldr (fun p b => down b p) a) s := by
      intro above s hs
      induction hs with
      | top hs => exact hgood _ hs
      | child _ hs ih => exact ((h _ _).mp ih).2 _ hs
    exact fun above s hs => ((h _ _).mp (hall above s hs)).1
  · -- from the leaves of the tree upward, whatever is handed down
    have hone : ∀ s a, (∀ above t, Occurs [s] above t →
        ok (above.foldr (fun p b => down b p) a) t) → good a s := by
      intro s
      induction s using induct with
      | h s ih =>
        intro a hok
        refine (h a s).mpr ⟨hok [] s (.top (List.mem_singleton_self s)), fun t ht => ?_⟩
        refine ih t ht _ fun above u hu => ?_
        simpa using hok _ u (hu.inside ht).under
    exact fun hok s hs => hone s a fun above t ht => hok above t (ht.inside hs)

end PipelineScript.Statement
