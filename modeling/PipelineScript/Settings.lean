import PipelineScript.Json
import PipelineScript.Numeral.Binary64
import PipelineScript.Table
import PipelineScript.Text.CharClass

/-! # Settings

What an engine can be told. As a document settings are TOML in the form in which they are read, with
every setting in it. -/

namespace PipelineScript

structure Settings where
  /-- Milliseconds that a run may take; 0 is no limit. -/
  maxDurationMillis : Nat
  monitor : Bool
  /-- Seconds after which a script that is not used leaves the cache. -/
  sweepIntervalSeconds : Nat
  /-- Threads of the default pool. -/
  defaultThreads : Nat
  /-- Threads of the named pools. -/
  named : Table Nat
deriving DecidableEq, Repr

namespace Settings

def default_ : Settings := ⟨60000, false, 3600, 4, []⟩

def limitMillis? (s : Settings) : Option Nat :=
  if s.maxDurationMillis = 0 then none else some s.maxDurationMillis

/-! ## As a document -/

def isControl (c : Char) : Bool := c < ' ' || c == '\x7f'

def upperHex (n places : Nat) : List Char :=
  (Json.hexDigitsOf n places).map fun c => if 'a' ≤ c ∧ c ≤ 'f' then Char.ofNat (c.toNat - 32) else c

def escapeKeyChar (c : Char) : List Char :=
  match c with
  | '"' => ['\\', '"']
  | '\\' => ['\\', '\\']
  | '\x08' => ['\\', 'b']
  | '\t' => ['\\', 't']
  | '\n' => ['\\', 'n']
  | '\x0c' => ['\\', 'f']
  | '\r' => ['\\', 'r']
  | c => if isControl c then '\\' :: 'u' :: upperHex c.toNat 4 else [c]

def isBareKey (key : String) : Bool :=
  key != "" && key.toList.all fun c =>
    Text.isAsciiLetter c || Text.isAsciiDigit c || c == '_' || c == '-'

/-- Single quotes hold every character as it is, so they serve a key with double quotes or
backslashes if nothing else in it stands in the way; a tab does not. -/
def prefersSingleQuotes (key : String) : Bool :=
  let cs := key.toList
  cs.any (fun c => c == '"' || c == '\\') &&
    !cs.any (fun c => c == '\'' || isControl c && c != '\t')

/-- A key without quotes, or between the quotes that suit it. -/
def keyText (key : String) : String :=
  if isBareKey key then key
  else if prefersSingleQuotes key then "'" ++ key ++ "'"
  else "\"" ++ String.ofList (key.toList.flatMap escapeKeyChar) ++ "\""

/-- The numbers of a document have 63 bits and a sign. -/
def isWritable (n : Nat) : Bool := n < Numeral.twoTo 63

/-- The document, unless one of the numbers is too large for it. -/
def text? (s : Settings) : Option String :=
  if isWritable s.maxDurationMillis && isWritable s.sweepIntervalSeconds &&
      isWritable s.defaultThreads && s.named.all fun (_, threads) => isWritable threads then
    some <|
      s!"[interpreter]\nmax_duration_ms = {s.maxDurationMillis}\nmonitor = {s.monitor}\n\n" ++
      s!"[cache]\nsweep_interval_secs = {s.sweepIntervalSeconds}\n\n" ++
      s!"[pools]\ndefault_threads = {s.defaultThreads}\n\n[pools.named]\n" ++
      String.join (s.named.map fun (name, threads) => keyText name ++ s!" = {threads}\n")
  else none

end Settings

end PipelineScript
