import PipelineScript.Settings.Decode

/-! # Arguments

A command line names a command and gives it operands and flags, in any order. Of a value that is
asked for after a flag, the next argument is taken, unless it looks like a flag itself; `--` makes
operands of all that follows. Arguments count from left to right, and the first one that is wrong,
or that asks for help, is the last one that is looked at. Only the value that stands right before
the name of a command waits: it is looked at when the command has all of its own arguments, so a
command that asks for help gets it in any case. -/

namespace PipelineScript.CommandLine

inductive CommandName where
  | run
  | check
  | tokens
  | ast
  | bench
  | config
deriving DecidableEq, Repr

inductive Flag where
  | config
  | preValue
  | param
  | pool
  | profile
  | iterations
  | help
deriving DecidableEq, Repr

namespace Flag

def long : Flag → String
  | config => "config" | preValue => "pre-value" | param => "param" | pool => "pool"
  | profile => "profile" | iterations => "iterations" | help => "help"

def short? : Flag → Option Char
  | param => some 'p'
  | iterations => some 'n'
  | help => some 'h'
  | _ => none

/-- What stands for the value in a description, for a flag that takes one. -/
def valueName? : Flag → Option String
  | config => some "CONFIG"
  | preValue => some "PRE_VALUE"
  | param => some "PARAMS"
  | pool => some "POOL"
  | iterations => some "ITERATIONS"
  | profile | help => none

def takesValue (f : Flag) : Bool := f.valueName?.isSome

def isRepeatable (f : Flag) : Bool := f == param

def description : Flag → String
  | config => "Path to config file (overrides default search)"
  | preValue => "Host `preValue` (JSON)"
  | param => "Host `params` entry as key=value (value parsed as JSON, else a string)"
  | pool => "Thread pool for task blocks"
  | profile => "Print per-statement timings after the run"
  | iterations => "Number of runs [default: 100]"
  | help => "Print help"

end Flag

namespace CommandName

def all : List CommandName := [run, check, tokens, ast, bench, config]

def text : CommandName → String
  | run => "run" | check => "check" | tokens => "tokens" | ast => "ast" | bench => "bench"
  | config => "config"

def ofText? (s : String) : Option CommandName := all.find? fun c => c.text = s

theorem ofText?_text (c : CommandName) : ofText? c.text = some c := by cases c <;> decide

def description : CommandName → String
  | run => "Run a script and print its exported value as JSON"
  | check => "Lex, parse and validate a script without running it"
  | tokens => "Print the token stream of a script"
  | ast => "Print the validated AST of a script as JSON"
  | bench => "Run a script repeatedly through the cache and report timings"
  | config => "Print the effective configuration as TOML"

/-- Every command but `config` works on a script file. -/
def takesFile (c : CommandName) : Bool := c != config

def flags : CommandName → List Flag
  | run => [.config, .preValue, .param, .pool, .profile, .help]
  | bench => [.config, .iterations, .help]
  | _ => [.config, .help]

end CommandName

/-- What help is asked about. -/
inductive Topic where
  | general
  | command (name : CommandName)
  /-- Help itself. -/
  | help
deriving DecidableEq, Repr

inductive Misuse where
  | noCommand
  | unknownCommand (name : String)
  | unexpected (argument : String)
  | noValue (f : Flag)
  | unneededValue (f : Flag) (value : String)
  | repeated (f : Flag)
  | badValue (f : Flag) (value : String)
  | noFile
  | emptyFile
deriving DecidableEq, Repr

def Misuse.message : Misuse → String
  | noCommand => "a command is missing"
  | unknownCommand name => s!"unrecognized subcommand '{name}'"
  | unexpected argument => s!"unexpected argument '{argument}' found"
  | noValue f => s!"a value is required for '--{f.long}' but none was supplied"
  | unneededValue f value => s!"unexpected value '{value}' for '--{f.long}' found"
  | repeated f => s!"the argument '--{f.long}' cannot be used multiple times"
  | badValue f value => s!"invalid value '{value}' for '--{f.long}'"
  | noFile => "the following required arguments were not provided: <FILE>"
  | emptyFile => "a value is required for '<FILE>' but none was supplied"

/-- Why no command comes of the arguments. -/
inductive Stop where
  | help (topic : Topic)
  | misuse (m : Misuse)
deriving DecidableEq, Repr

/-! ## Single arguments -/

/-- What an argument is on its own. -/
inductive Word where
  | operand
  /-- Two dashes. -/
  | separator
  | bare (f : Flag)
  /-- A flag whose value is the next argument. -/
  | opens (f : Flag)
  | holds (f : Flag) (value : String)
  | wrong (m : Misuse)
deriving DecidableEq, Repr

namespace Word

def isFlagLike : List Char → Bool
  | '-' :: _ :: _ => true
  | _ => false

/-- The name of a long flag and the value after the first equals sign. -/
def splitValue (cs : List Char) : List Char × Option String :=
  match cs.dropWhile (· != '=') with
  | [] => (cs, none)
  | _ :: value => (cs.takeWhile (· != '='), some (String.ofList value))

def ofFlag (f : Flag) (value : Option String) : Word :=
  match f.takesValue, value with
  | true, none => opens f
  | true, some value => holds f value
  | false, none => bare f
  | false, some value => wrong (.unneededValue f value)

/-- The value of a short flag follows it at once, perhaps after an equals sign. -/
def shortValue : List Char → Option String
  | [] => none
  | '=' :: value => some (String.ofList value)
  | value => some (String.ofList value)

def ofText (flags : List Flag) (argument : String) : Word :=
  match argument.toList with
  | ['-', '-'] => separator
  | '-' :: '-' :: cs =>
    let (name, value) := splitValue cs
    match flags.find? fun f => f.long.toList = name with
    | some f => ofFlag f value
    | none => wrong (.unexpected argument)
  | '-' :: c :: rest =>
    match flags.find? fun f => f.short? = some c with
    | some f => if f.takesValue then ofFlag f (shortValue rest) else bare f
    | none => wrong (.unexpected argument)
  | _ => operand

end Word

/-! ## The arguments of a command -/

/-- What has been given so far. -/
structure Given where
  file : Option String
  /-- Flags with their values, in the order in which they came. -/
  flags : List (Flag × String)
deriving DecidableEq, Repr

namespace Given

def none : Given := ⟨.none, []⟩

def has (g : Given) (f : Flag) : Bool := g.flags.any fun (other, _) => other == f

def value? (g : Given) (f : Flag) : Option String := g.flags.lookup f

def values (g : Given) (f : Flag) : List String :=
  g.flags.filterMap fun (other, value) => if other = f then some value else .none

/-- A path is not empty, and a number of runs is a number. -/
def isValue (f : Flag) (value : String) : Bool :=
  match f with
  | .config => value != ""
  | .iterations => (Scalars.readNat? value.toList).isSome
  | _ => true

def addFlag (g : Given) (f : Flag) (value : String) : Except Stop Given :=
  if g.has f && !f.isRepeatable then .error (.misuse (.repeated f))
  else if isValue f value then .ok { g with flags := g.flags ++ [(f, value)] }
  else .error (.misuse (.badValue f value))

def addOperand (name : CommandName) (g : Given) (operand : String) : Except Stop Given :=
  if !name.takesFile || g.file.isSome then .error (.misuse (.unexpected operand))
  else if operand = "" then .error (.misuse .emptyFile)
  else .ok { g with file := some operand }

/-- Reads the arguments after the name of the command. -/
def read (name : CommandName) (g : Given) : List String → Except Stop Given
  | [] => .ok g
  | argument :: rest =>
    match Word.ofText name.flags argument with
    | .operand => do read name (← g.addOperand name argument) rest
    | .separator => rest.foldlM (addOperand name) g
    | .bare .help => .error (.help (.command name))
    | .bare f => do read name (← g.addFlag f "") rest
    | .holds f value => do read name (← g.addFlag f value) rest
    | .opens f =>
      match rest with
      | [] => .error (.misuse (.noValue f))
      | value :: rest =>
        if Word.isFlagLike value.toList then .error (.misuse (.noValue f))
        else do read name (← g.addFlag f value) rest
    | .wrong m => .error (.misuse m)

end Given

/-! ## Commands -/

structure RunOptions where
  preValue : Option String
  params : List String
  pool : Option String
  profile : Bool
deriving DecidableEq, Repr

inductive Command where
  | run (file : String) (options : RunOptions)
  | check (file : String)
  | tokens (file : String)
  | ast (file : String)
  | bench (file : String) (iterations : Nat)
  | config
deriving DecidableEq, Repr

def Command.file? : Command → Option String
  | run file _ | check file | tokens file | ast file | bench file _ => some file
  | config => none

def standardIterations : Nat := 100

def Command.ofGiven (g : Given) : CommandName → Option Command
  | .run => g.file.map fun file =>
    .run file ⟨g.value? .preValue, g.values .param, g.value? .pool, g.has .profile⟩
  | .check => g.file.map .check
  | .tokens => g.file.map .tokens
  | .ast => g.file.map .ast
  | .bench => g.file.map fun file =>
    .bench file (((g.value? .iterations).bind fun s => Scalars.readNat? s.toList).getD
      standardIterations)
  | .config => some .config

structure Arguments where
  /-- The file of settings. -/
  configPath : Option String
  command : Command
deriving DecidableEq, Repr

namespace Arguments

/-- What `help` is asked about. -/
def topic : List String → Stop
  | [] => .help .general
  | ["help"] => .help .help
  | [name] =>
    match CommandName.ofText? name with
    | some name => .help (.command name)
    | none => .misuse (.unknownCommand name)
  | _ :: name :: _ => .misuse (.unknownCommand name)

/-- Reads a command. A file of settings that is named after it counts more than one before. -/
def ofCommand (before : Except Stop Given) (name : String) (rest : List String) :
    Except Stop Arguments := do
  if name = "help" then throw (topic rest)
  match CommandName.ofText? name with
  | none => throw (.misuse (.unknownCommand name))
  | some name =>
    let g ← Given.none.read name rest
    let before ← before
    match Command.ofGiven g name with
    | some command => return ⟨(g.value? .config).or (before.value? .config), command⟩
    | none => throw (.misuse .noFile)

/-- Reads the arguments after those that amount to `before`, which fails if the last of them is a
value that cannot be taken. -/
def readAfter (before : Except Stop Given) : List String → Except Stop Arguments
  | [] => .error (.misuse .noCommand)
  | argument :: rest =>
    match Word.ofText [.config, .help] argument with
    | .operand => ofCommand before argument rest
    | .separator => .error (.misuse ((rest.head?.map .unexpected).getD .noCommand))
    | .bare _ => do
      let _ ← before
      .error (.help .general)
    | .holds f value => do readAfter (.ok (← (← before).addFlag f value)) rest
    | .opens f =>
      match rest with
      | [] => .error (.misuse (.noValue f))
      | value :: rest =>
        if Word.isFlagLike value.toList then .error (.misuse (.noValue f))
        else do
          let g ← before
          readAfter (g.addFlag f value) rest
    | .wrong m => .error (.misuse m)

def read : List String → Except Stop Arguments := readAfter (.ok .none)

end Arguments

end PipelineScript.CommandLine
