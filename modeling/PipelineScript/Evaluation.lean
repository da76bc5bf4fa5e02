import PipelineScript.Evaluation.Builtins
import PipelineScript.Expression

/-! # Evaluation

The value of an expression where its variables are known. Operands are evaluated from left to
right; `&&`, `||` and the choice leave out what they do not need. -/

namespace PipelineScript.Expression

/-- A call of a builtin by name. -/
def callNamed (name : String) (args : List Value) : Except EvalFault Value :=
  match Builtin.ofName? name with
  | some f => f.apply args
  | none => .error (.undefinedFunction name)

mutual

def eval (vars : String → Option Value) : Expression → Except EvalFault Value
  | literal v => .ok v
  | variable_ name =>
    match vars name with
    | some v => .ok v
    | none => .error (.undefinedVariable name)
  | list items => do return .list (← evalAll vars items)
  | unary op operand => do op.apply (← eval vars operand)
  | binary op left right => do
    let a ← eval vars left
    match op with
    | .and => if a.isTruthy then return .bool (← eval vars right).isTruthy else return .bool false
    | .or => if a.isTruthy then return .bool true else return .bool (← eval vars right).isTruthy
    | op => op.apply a (← eval vars right)
  | choice condition yes no => do
    if (← eval vars condition).isTruthy then eval vars yes else eval vars no
  | field target name => do (← eval vars target).field name
  | item target index => do
    let v ← eval vars target
    v.item (← eval vars index)
  | call name args => do callNamed name (← evalAll vars args)

def evalAll (vars : String → Option Value) : List Expression → Except EvalFault (List Value)
  | [] => .ok []
  | e :: rest => do
    let v ← eval vars e
    return v :: (← evalAll vars rest)

end

end PipelineScript.Expression
