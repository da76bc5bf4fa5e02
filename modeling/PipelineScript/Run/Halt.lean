import PipelineScript.Evaluation.Fault

/-! How statements end, and why a run stops. -/

namespace PipelineScript

/-- How a statement ends. All but the first leave the lists of statements around it, until a loop
or a function takes them. -/
inductive Flow where
  | normal
  | returned (v : Value)
  | broken
  /-- Leaves all loops of the function. -/
  | brokenAll
  | continued

inductive RunFault where
  | evaluation (fault : EvalFault)
  | wrongType (name declared found : String)
  /-- An arm outside of the statement that it belongs to. -/
  | strayArm (kindName : String)
  | notIterable (type : String)
  | rangeBound (type source : String)
  | undefinedFunction (name : String)
  | unknownTask (name : String)
  | taskFailed (name message : String)
  /-- A name of a function stands for a statement that defines none. -/
  | notFunction (kindName : String)
  | argumentCount (name : String) (takes given : Nat)
  | tooDeep (limit : Nat) (name : String)
deriving DecidableEq, Repr

namespace RunFault

def kind : RunFault → FaultKind
  | evaluation fault => fault.kind
  | wrongType .. | notIterable _ | rangeBound .. => .type
  | strayArm _ => .evaluation
  | undefinedFunction _ | notFunction _ => .undefinedFunction
  | unknownTask _ => .unknownTask
  | taskFailed .. => .task
  | argumentCount .. => .arity
  | tooDeep .. => .callDepth

def message : RunFault → String
  | evaluation fault => fault.message
  | wrongType name declared found => s!"'{name}' is declared as {declared} but got a {found}"
  | strayArm kindName => s!"'{kindName}' cannot run outside its statement"
  | notIterable type => s!"cannot iterate over a {type}"
  | rangeBound type source => s!"range bounds must be integers, got {type} '{source}'"
  | undefinedFunction name => s!"no function or task named '{name}'"
  | unknownTask name => s!"unknown task '{name}'"
  | taskFailed name message => s!"task '{name}' failed: {message}"
  | notFunction kindName => s!"'{kindName}' is not a function"
  | argumentCount name takes given => s!"function '{name}' takes {takes} argument(s), got {given}"
  | tooDeep limit name => s!"call depth limit of {limit} exceeded calling '{name}'"

end RunFault

/-- Why a run stops before its end. -/
inductive Halt where
  | fault (line : Nat) (cause : RunFault)
  /-- The time is up. -/
  | timeout (line elapsedMillis limitMillis : Nat)
  /-- A task broke down. -/
  | panic (message : String)
  /-- A loop has used up the turns that it was given. -/
  | exhausted
deriving DecidableEq, Repr

def Halt.text : Halt → String
  | fault line cause => s!"runtime error [{cause.kind.text}] at line {line}: {cause.message}"
  | timeout line elapsed limit =>
    s!"script timed out at line {line}: ran {elapsed} ms, limit is {limit} ms"
  | panic message => s!"a task broke down: {message}"
  | exhausted => "a loop was given up"

end PipelineScript
