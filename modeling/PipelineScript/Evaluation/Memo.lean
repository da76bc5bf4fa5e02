import PipelineScript.Evaluation
import PipelineScript.Expression.Reader

/-! # Remembered trees

An expression in a loop is read once. The memo keeps the tree of every text that was an expression,
and starts afresh when it is full. -/

namespace PipelineScript

structure Memo where
  capacity : Nat
  trees : Table Expression

namespace Memo

/-- There is always room for one tree. -/
def withCapacity (capacity : Nat) : Memo := ⟨max capacity 1, []⟩

def standard : Memo := withCapacity 4096

def size (m : Memo) : Nat := m.trees.length

def clear (m : Memo) : Memo := { m with trees := [] }

def remember (m : Memo) (source : String) (tree : Expression) : Memo :=
  let room := if m.capacity ≤ m.size then [] else m.trees
  { m with trees := Table.insert room source tree }

/-- The tree of a text, which is kept from then on. -/
def lookUp (m : Memo) (source : String) : Except EvalFault Expression × Memo :=
  match Table.get? m.trees source with
  | some tree => (.ok tree, m)
  | none =>
    match Expression.ofSource source with
    | .ok tree => (.ok tree, m.remember source tree)
    | .error fault => (.error (.illFormed source fault), m)

def evaluate (m : Memo) (source : String) (vars : String → Option Value) :
    Except EvalFault Value × Memo :=
  let (tree, m) := m.lookUp source
  (tree >>= fun e => e.eval vars, m)

end Memo

end PipelineScript
