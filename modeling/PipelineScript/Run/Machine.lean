import PipelineScript.Context
import PipelineScript.Evaluation.Memo
import PipelineScript.Monitor
import PipelineScript.Run.Halt
import PipelineScript.Task
import PipelineScript.Task.Pool

/-! # The state of a run

A run carries its context, what it has echoed, its clock, and the memo and the timings that it
shares with other runs. The clock is the run's own: it moves by what tasks say they took, and by a
microsecond at every look at it, so that a run with a time limit ends. A run may be watched: then it
also keeps what happened to it, step by step. -/

namespace PipelineScript

/-- What a run is given and does not change. -/
structure Services where
  tasks : Tasks
  pools : Pools
  environment : Table String
  startedAt : Instant
  limitMillis : Option Nat
  /-- Turns of a single loop. -/
  loopTurns : Nat
  /-- Is somebody listening to `echo`? -/
  echoes : Bool

/-- What a watched run tells of itself. -/
inductive Event where
  /-- A scope or a frame was entered or left, or names were bound at the entrance. -/
  | moved (c : Context)
  /-- A statement wrote to the context. -/
  | wrote (s : Statement) (before after : Context)
  /-- A statement that had begun in a context came to its end there. -/
  | ran (s : Statement) (began : Context) (outcome : Except Halt Flow)
  /-- The body of a function came to its end. -/
  | called (definition : Statement) (outcome : Except Halt Flow)

structure Machine where
  context : Context
  memo : Memo
  monitor : Option Monitor
  /-- Lines and messages, the latest first. -/
  echoed : List (Nat × String)
  /-- Nanoseconds since the start. -/
  clock : Nat
  /-- What happened, the latest first, if the run is watched. -/
  events : Option (List Event)

namespace Machine

def note (m : Machine) (e : Event) : Machine := { m with events := m.events.map (e :: ·) }

def moveTo (m : Machine) (c : Context) : Machine := { m with context := c }.note (.moved c)

def write (m : Machine) (s : Statement) (c : Context) : Machine :=
  { m with context := c }.note (.wrote s m.context c)

/-- The machine with nothing to tell so far, but from now on. -/
def watched (m : Machine) : Machine := { m with events := some [] }

end Machine

/-- A step of a run. What it did is kept even if the run stops there. -/
abbrev Run (α : Type) := ExceptT Halt (StateM Machine) α

namespace Run

def fail {α : Type} (line : Nat) (cause : RunFault) : Run α := throw (.fault line cause)

def context : Run Context := return (← get).context

def modifyContext (f : Context → Context) : Run Unit := modify fun m => m.moveTo (f m.context)

/-- A change of the context by a statement itself. -/
def write (s : Statement) (f : Context → Context) : Run Unit :=
  modify fun m => m.write s (f m.context)

/-- A step with a change of the context before it and one after it, however it ends. The second
change may depend on the context before both. -/
def within {α : Type} (enter : Context → Context) (leave : Context → Context → Context)
    (body : Run α) : Run α := fun m =>
  let (result, m') := body.run (m.moveTo (enter m.context))
  (result, m'.moveTo (leave m.context m'.context))

/-- A step in a scope of its own. -/
def inScope {α : Type} (kind : ScopeKind) (body : Run α) : Run α :=
  within (fun c => c.push kind) (fun before after => after.popTo before.depth) body

/-- The body of a loop with all its turns. -/
def inLoop {α : Type} (body : Run α) : Run α :=
  within Context.enterLoop (fun _ after => after.exitLoop) body

/-- The body of a function. -/
def inFunction {α : Type} (body : Run α) : Run α :=
  within Context.enterFunction (fun before after => after.exitFunction before.loopDepth) body

/-- The time that a look at the clock takes. -/
def tick : Nat := 1000

def checkDeadline (limitMillis : Option Nat) (line : Nat) : Run Unit := do
  modify fun m => { m with clock := m.clock + tick }
  let elapsed := (← get).clock
  match limitMillis with
  | none => return
  | some limit =>
    if limit * 1000000 < elapsed then throw (.timeout line (elapsed / 1000000) limit)

def eval (e : SourceExpr) (line : Nat) : Run Value := do
  let m ← get
  let (result, memo) := m.memo.evaluate e.source m.context.lookUp
  set { m with memo }
  match result with
  | .ok v => return v
  | .error fault => fail line (.evaluation fault)

def evalAll (line : Nat) : List SourceExpr → Run (List Value)
  | [] => return []
  | e :: rest => do
    let v ← eval e line
    return v :: (← evalAll line rest)

def echo (listening : Bool) (line : Nat) (message : String) : Run Unit :=
  if listening then modify fun m => { m with echoed := (line, message) :: m.echoed } else pure ()

/-- A step whose time is recorded, however it ends. -/
def timed {α : Type} (kind : String) (body : Run α) : Run α := fun m =>
  let (result, m') := body.run m
  (result, { m' with monitor := m'.monitor.map fun t => t.record kind (m'.clock - m.clock) })

/-- A step that is an event, however it ends. -/
def noted (event : Context → Except Halt Flow → Event) (body : Run Flow) : Run Flow := fun m =>
  let (result, m') := body.run m
  (result, m'.note (event m.context result))

/-- The run of a statement. -/
def observed (s : Statement) (body : Run Flow) : Run Flow :=
  noted (.ran s) (timed s.kindName body)

end Run

end PipelineScript
