import PipelineScript.Expression

/-! Why an expression has no value. -/

namespace PipelineScript

/-- The kind of a fault at run time, as hosts see it. -/
inductive FaultKind where
  | undefinedVariable
  | undefinedFunction
  | unknownTask
  | type
  | arity
  | divisionByZero
  | evaluation
  | task
  | callDepth
deriving DecidableEq, Repr

def FaultKind.text : FaultKind → String
  | undefinedVariable => "undefined-variable"
  | undefinedFunction => "undefined-function"
  | unknownTask => "unknown-task"
  | type => "type"
  | arity => "arity"
  | divisionByZero => "division-by-zero"
  | evaluation => "evaluation"
  | task => "task"
  | callDepth => "call-depth"

/-- The functions that expressions can call. -/
inductive Builtin where
  | len | str | int | float | abs | min | max | contains | keys | upper | lower | typeOf | isNull
deriving DecidableEq, Repr

namespace Builtin

def all : List Builtin :=
  [len, str, int, float, abs, min, max, contains, keys, upper, lower, typeOf, isNull]

def name : Builtin → String
  | len => "len" | str => "str" | int => "int" | float => "float" | abs => "abs" | min => "min"
  | max => "max" | contains => "contains" | keys => "keys" | upper => "upper" | lower => "lower"
  | typeOf => "typeOf" | isNull => "isNull"

def ofName? (s : String) : Option Builtin := all.find? fun f => f.name = s

theorem ofName?_name (f : Builtin) : ofName? f.name = some f := by cases f <;> decide

end Builtin

inductive EvalFault where
  | illFormed (source : String) (fault : ExpressionFault)
  | undefinedVariable (name : String)
  | undefinedFunction (name : String)
  /-- Types are given by name in all that follows. -/
  | negation (type : String)
  | comparison (left : String) (op : BinaryOp) (right : String)
  | operands (left : String) (op : BinaryOp) (right : String)
  | noField (name type : String)
  | noItem (target index : String)
  | badArgument (f : Builtin) (type : String)
  | incomparable (f : Builtin) (next best : String)
  | notInteger (text : String)
  | notNumber (text : String)
  | argumentCount (f : Builtin) (takes given : Nat)
  | noArgument (f : Builtin)
  | divisionByZero
  | overflow
deriving DecidableEq, Repr

namespace EvalFault

def kind : EvalFault → FaultKind
  | illFormed .. | overflow => .evaluation
  | undefinedVariable _ => .undefinedVariable
  | undefinedFunction _ => .undefinedFunction
  | argumentCount .. | noArgument _ => .arity
  | divisionByZero => .divisionByZero
  | _ => .type

def message : EvalFault → String
  | illFormed source fault => fault.message source
  | undefinedVariable name => s!"undefined variable '{name}'"
  | undefinedFunction name =>
    s!"unknown function '{name}' (builtins: " ++ ", ".intercalate (Builtin.all.map Builtin.name) ++
      ")"
  | negation type => s!"cannot negate a {type}"
  | comparison left op right => s!"cannot compare {left} {op.text} {right}"
  | operands left op right => s!"unsupported operands {left} {op.text} {right}"
  | noField name type => s!"cannot read field '{name}' of a {type}"
  | noItem target index => s!"cannot index a {target} with a {index}"
  | badArgument f type => s!"{f.name}() does not accept a {type}"
  | incomparable f next best => s!"{f.name}(): cannot compare {next} with {best}"
  | notInteger text => s!"int(): '{text}' is not an integer"
  | notNumber text => s!"float(): '{text}' is not a number"
  | argumentCount f takes given => s!"{f.name}() takes {takes} argument(s), got {given}"
  | noArgument f => s!"{f.name}() needs at least one value"
  | divisionByZero => "division by zero"
  | overflow => "integer overflow"

end EvalFault

end PipelineScript
