import PipelineScript.CommandLine
import PipelineScript.Task.Standard

/-! # The program

All that is done here is to look around, to ask for the answer, and to print it. -/

namespace PipelineScript.Program

/-- The code of the system for a directory in the place of a file. -/
def directoryCode : UInt32 := 21

def faultOf : IO.Error → FileFault
  | .noFileOrDirectory .. => .missing
  | .inappropriateType _ code _ => if code = directoryCode then .isDirectory else .notDirectory
  | .permissionDenied .. => .denied
  | .userError _ => .notText
  | _ => .missing

def readText (path : String) : IO FileText := do
  try return .ok (← IO.FS.readFile path)
  catch e => return .error (faultOf e)

/-- The variables of the process. -/
def readEnvironment : IO (Table String) := do
  match ← readText "/proc/self/environ" with
  | .error _ => return []
  | .ok text =>
    return Table.ofEntries <| (text.splitOn "\x00").filterMap fun entry =>
      match entry.toList.dropWhile (· != '=') with
      | [] => none
      | _ :: value => some (String.ofList (entry.toList.takeWhile (· != '=')), String.ofList value)

def firstNumber (text : String) : Nat :=
  Numeral.valueOf 10 (text.toList.takeWhile Text.isAsciiDigit)

/-- The time, as the start of the system and the seconds since then. -/
def readClock : IO Instant := do
  let boot := match ← readText "/proc/stat" with
    | .ok text => (text.splitOn "\nbtime ").getD 1 ""
    | .error _ => ""
  let up := match ← readText "/proc/uptime" with
    | .ok text => text
    | .error _ => ""
  return ⟨Int.ofNat (firstNumber boot + firstNumber up), 0⟩

/-- What the answer depends on. A file of variables may name further files, so this takes two
rounds. -/
def readWorld (arguments : List String) : IO World := do
  let directory := (← IO.currentDir).toString
  let environment ← readEnvironment
  let mut files : Table FileText := []
  for _ in [1, 2] do
    let found := files
    let world : World := ⟨directory, environment, fun path =>
      (Table.get? found path).getD (.error .missing)⟩
    for path in CommandLine.paths world arguments do
      unless Table.has files path do
        files := Table.insert files path (← readText path)
  let found := files
  return ⟨directory, environment, fun path => (Table.get? found path).getD (.error .missing)⟩

end PipelineScript.Program

def main (arguments : List String) : IO UInt32 := do
  let world ← PipelineScript.Program.readWorld arguments
  let startedAt ← PipelineScript.Program.readClock
  let answer :=
    PipelineScript.CommandLine.answer world PipelineScript.Task.standard startedAt arguments
  IO.print answer.out
  IO.eprint answer.err
  return UInt32.ofNat answer.code
