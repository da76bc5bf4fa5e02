import PipelineScript.Evaluation.Memo
import PipelineScript.Statement

/-! # Expressions and their trees

What counts of the text of an expression is the tree that is read from it. A memo that keeps trees
as they are read gives every text the value of its tree (`Memo.Sound.evaluate_eq`), whatever it has
been asked before. -/

namespace PipelineScript

/-- The tree of an expression, if its text is one. -/
def SourceExpr.tree? (e : SourceExpr) : Option Expression := (Expression.ofSource e.source).toOption

/-- The value of a text that is read for this once. -/
def Expression.valueOf (source : String) (vars : String → Option Value) : Except EvalFault Value :=
  (ofSource source).mapError (.illFormed source) >>= fun e => e.eval vars

namespace Memo

/-- All trees are those of their texts. -/
def Sound (m : Memo) : Prop :=
  ∀ source tree, Table.get? m.trees source = some tree → Expression.ofSource source = .ok tree

variable {m : Memo}

theorem sound_withCapacity (capacity : Nat) : (withCapacity capacity).Sound :=
  fun _ _ h => by cases h

theorem sound_standard : standard.Sound := sound_withCapacity 4096

theorem Sound.remember (h : m.Sound) {source : String} {tree : Expression}
    (htree : Expression.ofSource source = .ok tree) : (m.remember source tree).Sound := by
  intro other t ht
  unfold Memo.remember at ht
  rw [Table.get?_insert] at ht
  split at ht
  · rename_i heq
    subst heq
    cases ht
    exact htree
  · split at ht
    · cases ht
    · exact h other t ht

theorem Sound.lookUp (h : m.Sound) (source : String) :
    (m.lookUp source).2.Sound ∧
      (m.lookUp source).1 = (Expression.ofSource source).mapError (.illFormed source) := by
  unfold Memo.lookUp
  split
  · rename_i tree ht
    rw [h source tree ht]
    exact ⟨h, rfl⟩
  · split
    · rename_i tree ht
      rw [ht]
      exact ⟨h.remember ht, rfl⟩
    · rename_i fault hf
      rw [hf]
      exact ⟨h, rfl⟩

theorem Sound.evaluate (h : m.Sound) (source : String) (vars : String → Option Value) :
    (m.evaluate source vars).2.Sound := (h.lookUp source).1

/-- A text has the value of its tree. -/
theorem Sound.evaluate_eq (h : m.Sound) (source : String) (vars : String → Option Value) :
    (m.evaluate source vars).1 =
      (Expression.ofSource source).mapError (.illFormed source) >>= fun e => e.eval vars := by
  rw [← (h.lookUp source).2]
  rfl

/-- Two texts with the same tree have the same value, or fail with faults of the same kind. -/
theorem Sound.evaluate_alike (h : m.Sound) {m' : Memo} (h' : m'.Sound) {e e' : SourceExpr}
    (htree : e'.tree? = e.tree?) (vars : String → Option Value) :
    (m'.evaluate e'.source vars).1.mapError EvalFault.kind =
      (m.evaluate e.source vars).1.mapError EvalFault.kind := by
  rw [h.evaluate_eq, h'.evaluate_eq]
  unfold SourceExpr.tree? at htree
  cases he : Expression.ofSource e.source <;> cases he' : Expression.ofSource e'.source <;>
    rw [he, he'] at htree
  · rfl
  · cases htree
  · cases htree
  · cases htree; rfl

end Memo

end PipelineScript
