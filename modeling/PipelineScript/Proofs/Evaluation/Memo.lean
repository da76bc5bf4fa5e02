import PipelineScript.Proofs.Evaluation.Trees
import PipelineScript.Proofs.Table

/-! # What a memo remembers

A memo is asked for values, and told to forget, in any order. It starts afresh when it is full, and
what it forgets it reads again. Main statement: its answers are those of reading every text for that
once, it has never more trees than room, each of them the tree of its text, and a text without a
tree leaves it as it is (`Memo.serveAll_transparent`). -/

namespace PipelineScript

namespace Memo

inductive Request where
  | evaluate (source : String) (vars : String → Option Value)
  | clear

/-- The answer to a request by a memo that remembers nothing. -/
def Request.answer? : Request → Option (Except EvalFault Value)
  | evaluate source vars => some (Expression.valueOf source vars)
  | clear => none

def serve (m : Memo) : Request → Option (Except EvalFault Value) × Memo
  | .evaluate source vars => ((m.evaluate source vars).1, (m.evaluate source vars).2)
  | .clear => (none, m.clear)

/-- The answers to requests one after another, and the memo after them. -/
def serveAll (m : Memo) : List Request → List (Option (Except EvalFault Value)) × Memo
  | [] => ([], m)
  | r :: rest => ((m.serve r).1 :: ((m.serve r).2.serveAll rest).1, ((m.serve r).2.serveAll rest).2)

/-- Every entry is a text with its tree, and there are no more of them than there is room for. -/
structure Within (room : Nat) (m : Memo) : Prop where
  capacity : m.capacity = room
  trees : ∀ entry ∈ m.trees, Expression.ofSource entry.1 = .ok entry.2
  size : m.size ≤ room

namespace Within

variable {room : Nat} {m : Memo} (h : m.Within room)

include h

theorem sound : m.Sound := fun source tree ht => h.trees (source, tree) (Table.mem_of_get? ht)

theorem clear : m.clear.Within room := ⟨h.capacity, List.forall_mem_nil _, Nat.zero_le _⟩

/-- A full memo makes room first, for at least one tree. -/
theorem remember (hroom : 0 < room) {source : String} {tree : Expression}
    (htree : Expression.ofSource source = .ok tree) : (m.remember source tree).Within room := by
  have hsize := h.size
  refine ⟨h.capacity, fun entry hentry => ?_, ?_⟩
  · obtain rfl | hentry := Table.eq_or_mem_of_mem_insert hentry
    · exact htree
    · split at hentry
      · cases hentry
      · exact h.trees entry hentry
  · refine (Table.length_insert_le _ _ _).trans ?_
    rw [h.capacity]
    split
    · exact hroom
    · rename_i hfits
      exact Nat.not_le.mp hfits

theorem evaluate (hroom : 0 < room) (source : String) (vars : String → Option Value) :
    (m.evaluate source vars).2.Within room := by
  show (m.lookUp source).2.Within room
  unfold Memo.lookUp
  split
  · exact h
  · split
    · exact h.remember hroom ‹_›
    · exact h

theorem serve (hroom : 0 < room) (r : Request) :
    (m.serve r).1 = r.answer? ∧ (m.serve r).2.Within room := by
  cases r with
  | evaluate source vars =>
    exact ⟨congrArg some (h.sound.evaluate_eq source vars), h.evaluate hroom source vars⟩
  | clear => exact ⟨rfl, h.clear⟩

theorem serveAll (hroom : 0 < room) (requests : List Request) :
    (m.serveAll requests).1 = requests.map Request.answer? ∧
      (m.serveAll requests).2.Within room := by
  induction requests generalizing m with
  | nil => exact ⟨rfl, h⟩
  | cons r rest ih =>
    obtain ⟨hanswer, hafter⟩ := h.serve hroom r
    obtain ⟨hanswers, hend⟩ := ih hafter
    exact ⟨congrArg₂ List.cons hanswer hanswers, hend⟩

end Within

theorem within_withCapacity (capacity : Nat) : (withCapacity capacity).Within (max capacity 1) :=
  ⟨rfl, List.forall_mem_nil _, Nat.zero_le _⟩

/-! ## Texts with and without a tree -/

variable {m : Memo} {source : String}

/-- A text without a tree is not in the memo, and does not get into it. -/
theorem evaluate_of_error {fault : ExpressionFault}
    (hfault : Expression.ofSource source = .error fault) (vars : String → Option Value) :
    (m.evaluate source vars).2 = m := by
  show (m.lookUp source).2 = m
  unfold Memo.lookUp
  split
  · rfl
  · rw [hfault]

/-- A text with a tree is in the memo when its value has been asked for. -/
theorem Sound.get?_evaluate (h : m.Sound) {tree : Expression}
    (htree : Expression.ofSource source = .ok tree) (vars : String → Option Value) :
    Table.get? (m.evaluate source vars).2.trees source = some tree := by
  show Table.get? (m.lookUp source).2.trees source = some tree
  unfold Memo.lookUp
  split
  · rename_i known hknown
    have hsame := (h source known hknown).symm.trans htree
    cases hsame
    exact hknown
  · rw [htree]
    exact (Table.get?_insert _ _ _ _).trans (if_pos rfl)

/-- Through whatever requests, the answers are as if nothing were remembered, and what is remembered
is right and within bounds. -/
theorem serveAll_transparent (capacity : Nat) (requests : List Request) :
    let (answers, m) := (withCapacity capacity).serveAll requests
    answers = requests.map Request.answer? ∧
      (∀ entry ∈ m.trees, Expression.ofSource entry.1 = .ok entry.2) ∧
      m.size ≤ max capacity 1 ∧
      ∀ source vars, match Expression.ofSource source with
        | .ok tree => Table.get? (m.evaluate source vars).2.trees source = some tree
        | .error _ => (m.evaluate source vars).2 = m := by
  obtain ⟨hanswers, hend⟩ :=
    (within_withCapacity capacity).serveAll (Nat.le_max_right capacity 1) requests
  refine ⟨hanswers, hend.trees, hend.size, fun source vars => ?_⟩
  split
  · exact hend.sound.get?_evaluate ‹_› vars
  · exact evaluate_of_error ‹_› vars

end Memo

end PipelineScript
