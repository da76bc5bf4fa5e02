import PipelineScript.CommandLine.Help
import PipelineScript.Engine
import PipelineScript.Settings.Load
import PipelineScript.Statement.Json

/-! # The command line

A command is answered with what it prints and the code that it ends with. Whatever command it is,
the settings are loaded first, so that faulty ones are always told. -/

namespace PipelineScript.CommandLine

structure Answer where
  /-- 0 for success, 1 for a fault of the work, 2 for arguments that are no command. -/
  code : Nat
  out : String
  err : String
  /-- The timings that are printed, if any. -/
  timings : Option Monitor

/-- Why a command fails. -/
inductive Failure where
  | settings (fault : SettingsFault)
  | scriptFile (path : String) (why : FileFault)
  | preValue
  | paramWithoutValue (param : String)
  | paramWithoutKey (param : String)
  | engine (fault : EngineFault)
  | run (error : RunError)

def Failure.text : Failure → String
  | settings fault => fault.text
  | scriptFile path why => "Failed to read script: " ++ Text.quotePath path ++ ": " ++ why.message
  | preValue => "--pre-value must be valid JSON"
  | paramWithoutValue param => s!"Invalid --param '{param}', expected key=value"
  | paramWithoutKey param => s!"Invalid --param '{param}', key is empty"
  | engine fault => fault.message
  | run error => error.text

namespace Answer

def done (out err : String) : Answer := ⟨0, out, err, none⟩

/-- A failure after something has been printed. -/
def failed (printed : String) (why : Failure) : Answer :=
  ⟨1, printed, s!"Error: {why.text}\n", none⟩

def ofExcept : Except Failure Answer → Answer
  | .ok a => a
  | .error why => failed "" why

def ofStop : Stop → Answer
  | .help topic => done topic.text ""
  | .misuse m => ⟨2, "", m.text, none⟩

end Answer

/-! ## The values of the host -/

/-- A parameter's value is data if it can be read as such, and text otherwise. -/
def readParam (param : String) : Except Failure (String × Value) :=
  let cs := param.toList
  match cs.dropWhile (· != '=') with
  | [] => .error (.paramWithoutValue param)
  | _ :: value =>
    let key := String.ofList (cs.takeWhile (· != '='))
    let text := String.ofList value
    if key = "" then .error (.paramWithoutKey param)
    else .ok (key, ((Json.ofText? text).map Value.ofJson).getD (.str text))

def hostValues (o : RunOptions) : Except Failure HostValues := do
  let preValue ← match o.preValue with
    | none => pure []
    | some text =>
      match Json.ofText? text with
      | some j => pure [("preValue", Value.ofJson j)]
      | none => throw .preValue
  let params ← o.params.mapM readParam
  return Table.ofEntries <|
    preValue ++ (if params = [] then [] else [("params", .map (Table.ofEntries params))]) ++
      match o.pool with
      | none => []
      | some pool => [("threadFactoryName", .str pool)]

/-! ## Commands -/

/-- What a command works with. -/
structure Session where
  world : World
  settings : Settings
  tasks : Tasks
  environment : Table String
  startedAt : Instant

namespace Session

def readScript (s : Session) (path : String) : Except Failure String :=
  (s.world.file path).mapError (.scriptFile path)

def compile (s : Session) (path : String) : Except Failure Script := do
  (Script.compile (← s.readScript path)).mapError fun d => .run (.script d)

def engine (s : Session) : Except Failure Engine :=
  (Engine.build s.settings s.tasks s.environment s.startedAt).mapError .engine

def run (s : Session) (file : String) (o : RunOptions) : Except Failure Answer := do
  let source ← s.readScript file
  let host ← hostValues o
  let (report, engine) := (← s.engine).run source host true
  let echoed := String.join (report.echoed.map fun (_, message) => message ++ "\n")
  return match report.result with
    | .error e => .failed echoed (.run e)
    | .ok export_ =>
      let timings := if o.profile then engine.monitor else none
      let (out, err) := match export_ with
        | some v => (v.toJson.pretty 0 ++ "\n", "")
        | none => ("", "(no export)\n")
      ⟨0, echoed ++ out, err ++ (timings.map Monitor.text).getD "", timings⟩

def check (s : Session) (file : String) : Except Failure Answer := do
  let script ← s.compile file
  return .done s!"✓ {file} is valid: {script.statements.length} statement(s), sha256 {script.hash}\n"
    ""

def tokenRow (t : Token) : String :=
  Text.padLeft 4 (toString t.line) ++ "  " ++ Text.padRight 12 t.lexeme.kindName ++ " " ++ t.shown ++
    "\n"

def tokens (s : Session) (file : String) : Except Failure Answer := do
  match Token.ofSource (← s.readScript file) with
  | .ok tokens => return .done (String.join (tokens.map tokenRow)) ""
  | .error d => throw (.run (.script d))

def ast (s : Session) (file : String) : Except Failure Answer := do
  let script ← s.compile file
  return .done ((Statement.listToJson script.statements).pretty 0 ++ "\n") ""

/-- Runs a text so many times, until a run fails. -/
def runTimes (source : String) : Nat → Engine → Except Failure Engine
  | 0, engine => .ok engine
  | n + 1, engine =>
    match engine.run source [] false with
    | (⟨.ok _, _⟩, engine) => runTimes source n engine
    | (⟨.error e, _⟩, _) => .error (.run e)

def bench (s : Session) (file : String) (iterations : Nat) : Except Failure Answer := do
  let source ← s.readScript file
  let engine ← runTimes source iterations (← s.engine)
  let nanos := engine.clock.toFloat
  let average := if iterations = 0 then "" else
    s!"Average: {Numeral.fixed 3 (nanos / 1000 / iterations.toFloat)} us/run\n"
  return ⟨0, s!"Runs: {iterations}\nTotal: {Numeral.fixed 3 (nanos / 1000000)} ms\n{average}" ++
    s!"Cache: {engine.cache.hits} hit(s), {engine.cache.misses} miss(es)\n" ++
    ((engine.monitor.map fun m => "\n" ++ m.text ++ "\n").getD ""), "", engine.monitor⟩

def config (s : Session) : Except Failure Answer :=
  match s.settings.text? with
  | some text => .ok (.done text "")
  | none => .error (.settings .notWritable)

def answer (s : Session) : Command → Except Failure Answer
  | .run file options => s.run file options
  | .check file => s.check file
  | .tokens file => s.tokens file
  | .ast file => s.ast file
  | .bench file iterations => s.bench file iterations
  | .config => s.config

end Session

/-- Whether a command is about timings. -/
def Command.measures : Command → Bool
  | .run _ options => options.profile
  | .bench .. => true
  | _ => false

/-- What a command asks of the settings. -/
def overridesOf (a : Arguments) : Overrides :=
  { path := a.configPath, monitor := if a.command.measures then some true else none }

/-- The paths that an answer depends on. -/
def paths (w : World) (arguments : List String) : List String :=
  match Arguments.read arguments with
  | .error _ => []
  | .ok a => Settings.paths w (overridesOf a) ++ a.command.file?.toList

/-- The answer to the arguments of the program. -/
def answer (w : World) (tasks : Tasks) (startedAt : Instant) (arguments : List String) : Answer :=
  match Arguments.read arguments with
  | .error stop => .ofStop stop
  | .ok a =>
    .ofExcept <|
      match Settings.load w (overridesOf a) with
      | (.error fault, _) => .error (.settings fault)
      | (.ok settings, environment) =>
        Session.answer ⟨w, settings, tasks, environment, startedAt⟩ a.command

end PipelineScript.CommandLine
