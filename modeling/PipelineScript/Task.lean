import PipelineScript.Instant
import PipelineScript.Value

/-! # Tasks

What a script can have done outside of it. A task sees its arguments and where it runs, and says
how it ended and how long it took. -/

namespace PipelineScript

/-- Where and when a task runs. -/
structure Site where
  now : Instant
  /-- The variables of the process. -/
  environment : Table String
  /-- The name of the pool thread, for a task of a block. -/
  thread : Option String

inductive Outcome where
  | value (v : Value)
  | failed (message : String)
  /-- The task broke down. Outside of a block this ends the run. -/
  | panicked (message : String)

structure Reply where
  outcome : Outcome
  /-- The time it took. -/
  millis : Nat

abbrev Task := Site → List Value → Reply

/-- Tasks by name. -/
abbrev Tasks := Table Task

namespace Task

/-- A task that takes no time and works on its arguments alone. -/
def ofPure (f : List Value → Except String Value) : Task := fun _ args =>
  match f args with
  | .ok v => ⟨.value v, 0⟩
  | .error message => ⟨.failed message, 0⟩

end Task

end PipelineScript
