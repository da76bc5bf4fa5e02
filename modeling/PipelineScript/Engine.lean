import PipelineScript.Engine.Cache
import PipelineScript.Engine.Registry
import PipelineScript.Numeral.Decimal
import PipelineScript.Run
import PipelineScript.Settings
import PipelineScript.Task.Standard
import PipelineScript.Text.Quoted

/-! # The engine

What a host talks to: it compiles scripts through a cache, keeps others under names, and runs them
with its tasks and pools. Runs share the remembered expressions and the timings, and nothing else.
The clock of an engine moves with its runs and, by next to nothing, with everything that it is asked
to compile or to evict. While a script runs the cache is swept. -/

namespace PipelineScript

structure Engine where
  tasks : Tasks
  pools : Pools
  environment : Table String
  startedAt : Instant
  limitMillis : Option Nat
  loopTurns : Nat
  cache : Cache
  registry : Registry
  memo : Memo
  monitor : Option Monitor
  /-- Nanoseconds since the start. -/
  clock : Nat

inductive EngineFault where
  /-- A thread pool without a thread. -/
  | idlePool (name : String)
deriving DecidableEq, Repr

def EngineFault.message : EngineFault → String
  | idlePool name =>
    s!"Failed to build thread pools: thread pool '{name}' needs at least one thread"

/-- Why there is no export to speak of. -/
inductive RunError where
  | script (d : Diagnostic)
  | registry (fault : RegistryFault)
  | halt (why : Halt)

def RunError.text : RunError → String
  | script d => d.text
  | registry fault => fault.text
  | halt why => why.text

/-- What a run leaves behind. -/
structure RunReport where
  result : Except RunError (Option Value)
  /-- Lines and messages, in order. -/
  echoed : List (Nat × String)

namespace Engine

/-- Turns of a single loop: with a time limit the clock ends a loop long before. -/
def standardTurns : Nat := Numeral.twoTo 64

def build (settings : Settings) (tasks : Tasks) (environment : Table String)
    (startedAt : Instant) : Except EngineFault Engine :=
  let pools : Pools := ⟨settings.defaultThreads, settings.named⟩
  match pools.idle? with
  | some name => .error (.idlePool name)
  | none =>
    .ok ⟨tasks, pools, environment, startedAt, settings.limitMillis?, standardTurns,
      .empty (settings.sweepIntervalSeconds * 1000000000), [], .standard,
      if settings.monitor then some [] else none, 0⟩

/-- Compiles a text through the cache. -/
def compile (e : Engine) (source : String) : Except Diagnostic Script × Engine :=
  let now := e.clock + Run.tick
  let (result, cache) := e.cache.getOrCompile now source
  (result, { e with cache, clock := now })

def services (e : Engine) (echoes : Bool) : Services :=
  ⟨e.tasks, e.pools, e.environment, e.startedAt.after e.clock, e.limitMillis, e.loopTurns, echoes⟩

/-- Runs statements with the values of a host. They need not have been checked. -/
def execute (e : Engine) (nodes : List Statement) (host : HostValues) (echoes : Bool) :
    RunReport × Engine :=
  let (result, m) := (Run.script (e.services echoes) nodes).run (Run.start host e.memo e.monitor)
  let now := e.clock + m.clock
  (⟨result.mapError .halt, m.echoed.reverse⟩,
    { e with memo := m.memo, monitor := m.monitor, cache := e.cache.sweptBy now, clock := now })

def run (e : Engine) (source : String) (host : HostValues) (echoes : Bool) : RunReport × Engine :=
  match e.compile source with
  | (.ok script, e) => e.execute script.statements host echoes
  | (.error d, e) => (⟨.error (.script d), []⟩, e)

def runRegistered (e : Engine) (name : String) (host : HostValues) (echoes : Bool) :
    RunReport × Engine :=
  match e.registry.get name with
  | .ok script => e.execute script.statements host echoes
  | .error fault => (⟨.error (.registry fault), []⟩, e)

def register (e : Engine) (name source : String) : Except RegistryFault Script × Engine :=
  match e.registry.register name source with
  | .ok (script, registry) => (.ok script, { e with registry })
  | .error fault => (.error fault, e)

def remove (e : Engine) (name : String) : Except RegistryFault Script × Engine :=
  match e.registry.remove name with
  | .ok (script, registry) => (.ok script, { e with registry })
  | .error fault => (.error fault, e)

def clearRegistry (e : Engine) : Engine := { e with registry := [] }

/-- Drops the scripts that were last used more than `maxIdle` before a time `after` from now. Asking
takes time as well, so a script is always idle for longer than `after`. -/
def evictIdle (e : Engine) (after maxIdle : Nat) : Nat × Engine :=
  let now := e.clock + Run.tick
  let (count, cache) := e.cache.evictIdle (now + after) maxIdle
  (count, { e with cache, clock := now })

def resetMonitor (e : Engine) : Engine := { e with monitor := e.monitor.map fun _ => [] }

/-- Stops the sweeping and forgets all scripts and expressions. -/
def shutdown (e : Engine) : Engine :=
  { e with cache := e.cache.shutdown, registry := [], memo := e.memo.clear }

/-! ## Description -/

/-- `whole` units and a fraction of `places` digits, whose zeros at the end are left out. -/
def decimalText (whole fraction places : Nat) (unit : String) : String :=
  let digits := Nat.toDigits 10 fraction
  let padded := Numeral.zeros (places - digits.length) ++ digits
  let shown := (padded.reverse.dropWhile (· == '0')).reverse
  toString whole ++ (if fraction = 0 then "" else "." ++ String.ofList shown) ++ unit

/-- A length of time in the largest unit that it fills, with as many places as it takes. -/
def spanText (nanos : Nat) : String :=
  if 1000000000 ≤ nanos then decimalText (nanos / 1000000000) (nanos % 1000000000) 9 "s"
  else if 1000000 ≤ nanos then decimalText (nanos / 1000000) (nanos % 1000000) 6 "ms"
  else if 1000 ≤ nanos then decimalText (nanos / 1000) (nanos % 1000) 3 "µs"
  else decimalText nanos 0 0 "ns"

def namesText (names : List String) : String :=
  "[" ++ ", ".intercalate (names.map Text.quote) ++ "]"

/-- A description of the engine for its developers. -/
def text (e : Engine) : String :=
  let limit := match e.limitMillis with
    | some ms => "Some(" ++ spanText (ms * 1000000) ++ ")"
    | none => "None"
  "Engine \x7b cache: " ++ e.cache.text (spanText e.cache.sweepInterval) ++
    s!", registered: {e.registry.length}, tasks: TaskRegistry \x7b tasks: " ++
    namesText (Table.keys e.tasks) ++
    s!" \x7d, pools: PoolRegistry \x7b default_threads: {e.pools.defaultThreads}, named: " ++
    namesText (Table.keys e.pools.named) ++
    s!" \x7d, monitor: {e.monitor.isSome}, max_duration: {limit} \x7d"

end Engine

end PipelineScript
