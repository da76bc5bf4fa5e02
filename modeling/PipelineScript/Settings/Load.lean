import PipelineScript.Settings.Decode
import PipelineScript.Settings.EnvFile
import PipelineScript.Settings.Layers
import PipelineScript.Text.Quoted
import PipelineScript.Toml.Reader
import PipelineScript.World

/-! # Where settings come from

From the weakest to the strongest: the standard values, a file, the variables of the process, and
what the caller asks for. A file of variables in the directory or above it adds to the variables. -/

namespace PipelineScript

inductive SettingsFault where
  | fileNotFound (path : String)
  | unreadable (path : String) (why : FileFault)
  /-- The file is no document of settings. -/
  | malformed (path : String)
  /-- The file is no document at all, so that there are no layers to put together. -/
  | notLoaded
  /-- The layers are no settings. -/
  | invalid
  | noThreads
  | noNamedThreads (name : String)
  | noInterval
  | notWritable
deriving DecidableEq, Repr

namespace SettingsFault

def message : SettingsFault → String
  | fileNotFound path => "Config file not found: " ++ Text.quotePath path
  | unreadable path _ => "Failed to read config file: " ++ Text.quotePath path
  | malformed path => "Failed to parse config file: " ++ Text.quotePath path
  | notLoaded => "Failed to load configuration"
  | invalid => "Invalid configuration"
  | noThreads => "pools.default_threads must be at least 1"
  | noNamedThreads name => s!"pools.named.{name} must be at least 1"
  | noInterval => "cache.sweep_interval_secs must be at least 1"
  | notWritable => "Failed to render config as TOML"

/-- The message with its cause. -/
def text : SettingsFault → String
  | unreadable path why => (unreadable path why).message ++ ": " ++ why.message
  | notWritable => notWritable.message ++ ": out-of-range value for u64 type"
  | fault => fault.message

end SettingsFault

/-- What the caller asks for. -/
structure Overrides where
  /-- The file to read. -/
  path : Option String := none
  /-- Whether the variables of the process count. -/
  usesEnvironment : Bool := true
  maxDurationMillis : Option Nat := none
  monitor : Option Bool := none
  sweepIntervalSeconds : Option Nat := none
  defaultThreads : Option Nat := none
  named : Table Nat := []

namespace Settings

/-! ## The surroundings -/

/-- The nearest file of variables. -/
def envFile? (w : World) : Option String :=
  (Path.ancestors w.directory).findSome? fun directory =>
    match w.file (Path.join directory ".env") with
    | .ok text => some text
    | .error _ => none

/-- The variables of the process with those of a file. -/
def environmentOf (w : World) : Table String :=
  match envFile? w with
  | some text => EnvFile.load text w.environment
  | none => w.environment

/-- The variable that names a file of settings. -/
def pathVariable : String := "NF_CONFIG_PATH"

def standardPaths (vars : Table String) : List String :=
  "nf.toml" ::
    match Table.get? vars "HOME" with
    | some home => [Path.join home ".config/nf/config.toml"]
    | none => []

/-- The file to read. One that is asked for has to be there. -/
def locate (w : World) (vars : Table String) (o : Overrides) :
    Except SettingsFault (Option String) :=
  let named := o.path.or <|
    if o.usesEnvironment then Table.get? vars pathVariable else none
  match named with
  | some path =>
    if FileText.exists_ (w.file path) then .ok (some path) else .error (.fileNotFound path)
  | none => .ok ((standardPaths vars).find? fun path => FileText.exists_ (w.file path))

/-! ## Layers -/

/-- The text of a file of settings. For a directory it is the one beside it with the same name and
an extension. -/
def sourceText? (w : World) (path : String) : Option String :=
  match w.file path with
  | .ok text => some text
  | .error .isDirectory =>
    match Path.withExtension? w.directory path "toml" with
    | some path => (w.file path).toOption
    | none => none
  | .error _ => none

def fileLayer (w : World) : Option String → Except SettingsFault (List (String × Json))
  | none => .ok []
  | some path =>
    match sourceText? w path >>= Toml.dataOf? (.str "") with
    | some j => .ok (Layers.membersOf j)
    | none => .error .notLoaded

/-- The file and the variables, one over the other. -/
def ofLayers (w : World) (vars : Table String) (o : Overrides) :
    Except SettingsFault Settings := do
  let fromFile ← fileLayer w (← locate w vars o)
  let base := Layers.overlay (.obj []) fromFile
  let merged :=
    if o.usesEnvironment then Layers.overlay base (Layers.ofEnvironment vars) else base
  match ofJson? .lenient merged with
  | some s => .ok s
  | none => .error .invalid

def override (o : Overrides) (s : Settings) : Settings where
  maxDurationMillis := o.maxDurationMillis.getD s.maxDurationMillis
  monitor := o.monitor.getD s.monitor
  sweepIntervalSeconds := o.sweepIntervalSeconds.getD s.sweepIntervalSeconds
  defaultThreads := o.defaultThreads.getD s.defaultThreads
  named := o.named.foldl (fun t (name, threads) => Table.insert t name threads) s.named

/-- Every pool has a thread, and the cache is not swept all the time. -/
def check (s : Settings) : Except SettingsFault Unit :=
  if s.defaultThreads = 0 then .error .noThreads
  else
    match s.named.find? fun (_, threads) => threads = 0 with
    | some (name, _) => .error (.noNamedThreads name)
    | none => if s.sweepIntervalSeconds = 0 then .error .noInterval else .ok ()

theorem check_eq_ok_iff {s : Settings} :
    check s = .ok () ↔
      s.defaultThreads ≠ 0 ∧ (∀ pool ∈ s.named, pool.2 ≠ 0) ∧ s.sweepIntervalSeconds ≠ 0 := by
  unfold check
  split
  · rename_i h; simp [h]
  · split
    · rename_i name threads h
      have hm := List.mem_of_find?_eq_some h
      have hz := List.find?_some h
      simp only [decide_eq_true_eq] at hz
      simp only [reduceCtorEq, false_iff, not_and]
      intro _ hall
      exact absurd hz (hall _ hm)
    · rename_i hd _ h
      have hall : ∀ pool ∈ s.named, pool.2 ≠ 0 := by
        simpa [List.find?_eq_none] using h
      by_cases hs : s.sweepIntervalSeconds = 0
      · simp [hs]
      · rw [if_neg hs]; exact ⟨fun _ => ⟨hd, hall, hs⟩, fun _ => rfl⟩

/-- The settings for a caller, and the variables of the process as they are then. -/
def load (w : World) (o : Overrides) : Except SettingsFault Settings × Table String :=
  let vars := if o.usesEnvironment then environmentOf w else w.environment
  let settings := do
    let s := override o (← ofLayers w vars o)
    check s
    return s
  (settings, vars)

/-- The paths that the settings for a caller depend on. -/
def paths (w : World) (o : Overrides) : List String :=
  let vars := if o.usesEnvironment then environmentOf w else w.environment
  let named := o.path.or (Table.get? vars pathVariable)
  let files := (named.map fun path => [path]).getD (standardPaths vars)
  (Path.ancestors w.directory).map (Path.join · ".env") ++ files ++
    files.filterMap fun path => Path.withExtension? w.directory path "toml"

/-- The settings in one file, word for word and unchecked. -/
def ofFile (w : World) (path : String) : Except SettingsFault Settings :=
  match w.file path with
  | .error why => .error (.unreadable path why)
  | .ok text =>
    match Toml.dataOf? (.obj [("date", .null)]) text >>= ofJson? .strict with
    | some s => .ok s
    | none => .error (.malformed path)

end Settings

end PipelineScript
