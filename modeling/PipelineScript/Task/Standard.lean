import PipelineScript.Json.Reader
import PipelineScript.Task
import PipelineScript.Value.Json
import PipelineScript.Value.Text

/-! The tasks that every engine has. Most of them need one argument and ignore the rest. -/

namespace PipelineScript.Task

/-- The first argument of the task `name`. -/
def first (name : String) : List Value → Except String Value
  | v :: _ => .ok v
  | [] => .error s!"{name}() expects at least 1 argument(s)"

/-- Waits. A double will do for the number of milliseconds if it is whole. -/
def sleep : Task := fun _ args =>
  match first "sleep" args with
  | .error message => ⟨.failed message, 0⟩
  | .ok v =>
    match v.asInt64? with
    | some ms =>
      if ms.toInt < 0 then
        ⟨.failed "sleep() expects a non-negative number of milliseconds", 0⟩
      else ⟨.value .null, ms.toInt.toNat⟩
    | none => ⟨.failed "sleep() expects a non-negative number of milliseconds", 0⟩

def now : Task := fun site _ => ⟨.value (.date site.now), 0⟩

def parseJson : Task := ofPure fun args => do
  match (← first "parseJson" args).asText? with
  | none => .error "parseJson() expects a string"
  | some text =>
    match Json.ofText? text with
    | some j => return .ofJson j
    | none => .error "parseJson() received invalid JSON"

def toJson : Task := ofPure fun args => do return .str (← first "toJson" args).toJson.compact

/-- A variable of the process, or `null`. -/
def env : Task := fun site args =>
  ofPure (fun args => do
    match (← first "env" args).asText? with
    | none => .error "env() expects a variable name"
    | some name => return ((Table.get? site.environment name).map Value.str).getD .null) site args

def fail : Task := ofPure fun
  | v :: _ => .error v.text
  | [] => .error "fail() called"

def identity : Task := ofPure (first "identity")

def standard : Tasks := Table.ofEntries
  [("sleep", sleep), ("now", now), ("parseJson", parseJson), ("toJson", toJson), ("env", env),
    ("fail", fail), ("identity", identity)]

end PipelineScript.Task
