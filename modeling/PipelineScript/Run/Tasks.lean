import PipelineScript.Run.Machine

/-! # Tasks in a run

A single task runs on the spot. The tasks of a block run on the threads of a pool: their arguments
are evaluated first, so that no task sees what another one does, and those that end with a value
give an entry of the result. -/

namespace PipelineScript.Run

/-- Where a task runs that starts at `clock`. -/
def siteAt (sv : Services) (clock : Nat) (thread : Option String) : Site :=
  ⟨sv.startedAt.after clock, sv.environment, thread⟩

def nanosOf (millis : Nat) : Nat := millis * 1000000

/-- The task of a call, on the spot. -/
def runTask (sv : Services) (call : Invocation) (line : Nat) : Run Value := do
  let args ← evalAll line call.args
  let name := (← context).resolve call.name
  match Table.get? sv.tasks name with
  | none => fail line (.unknownTask name)
  | some task =>
    let reply := task (siteAt sv (← get).clock none) args
    modify fun m => { m with clock := m.clock + nanosOf reply.millis }
    match reply.outcome with
    | .value v => return v
    | .failed message => fail line (.taskFailed name message)
    | .panicked message => throw (.panic message)

structure Job where
  key : String
  task : Task
  args : List Value

/-- The entries whose task exists, with their arguments. -/
def jobsOf (sv : Services) : List TaskEntry → Run (List Job)
  | [] => return []
  | entry :: rest => do
    let args ← evalAll entry.line entry.call.args
    let name := (← context).resolve entry.call.name
    let jobs ← jobsOf sv rest
    match Table.get? sv.tasks name with
    | some task => return ⟨entry.key, task, args⟩ :: jobs
    | none => return jobs

/-- The results of jobs on threads that are busy for the given times, and the time when all of
them are free again. -/
def share (sv : Services) (pool : Pool) (clock : Nat) :
    List Nat → List Job → Table Value → Table Value × Nat
  | busy, [], results => (results, busy.foldl max 0)
  | busy, job :: rest, results =>
    let thread := freest busy
    let start := busy.getD thread 0
    let reply := job.task (siteAt sv (clock + start) (some (pool.threadName thread))) job.args
    let results := match reply.outcome with
      | .value v => Table.insert results job.key v
      | _ => results
    share sv pool clock (busy.set thread (start + nanosOf reply.millis)) rest results

/-- The results of a task block by key. The job that was given last is taken up first. -/
def runBlock (sv : Services) (entries : List TaskEntry) : Run Value := do
  let jobs ← jobsOf sv entries
  let m ← get
  let pool := sv.pools.resolve m.context.pool?
  let busy := List.replicate (min pool.threads jobs.length) 0
  let (results, time) := share sv pool m.clock busy jobs.reverse []
  set { m with clock := m.clock + time }
  return .map results

end PipelineScript.Run
