import PipelineScript.Table
import PipelineScript.Text.CharClass
import PipelineScript.Text.Slice

/-! # Files of variables

A file of variables has one on each line, `KEY=value`, and adds them to those of the process. A
value may be quoted, and goes on to the next line while a quote is open. A variable that the
process has already stays as it is. The first line that is wrong ends the reading. -/

namespace PipelineScript.EnvFile

/-! ## Lines -/

/-- Where the cutting into lines stands within a line. -/
inductive Mode where
  | plain
  /-- After a blank, where a comment may begin. -/
  | blank
  | escape
  | weak
  | weakEscape
  | strong
  | strongEscape
deriving DecidableEq, Repr

def Mode.next (mode : Mode) (c : Char) : Mode :=
  let fresh := match c with
    | '\\' => escape
    | '"' => weak
    | '\'' => strong
    | _ => plain
  match mode with
  | plain => if Text.isBlank c && c != '\n' && c != '\r' then blank else fresh
  | blank => fresh
  | escape => plain
  | weak => if c = '\\' then weakEscape else if c = '"' then plain else weak
  | weakEscape => weak
  | strong => if c = '\\' then strongEscape else if c = '\'' then plain else strong
  | strongEscape => strong

/-- What the text of a line is cut at, if it is complete. -/
inductive Cut where
  | open_ (mode : Mode)
  | comment (before : List Char)
deriving DecidableEq, Repr

/-- Passes over one line of the file; `passed` is what came before in it, in reverse. -/
def passLine (mode : Mode) (passed : List Char) : List Char → Cut
  | [] => .open_ mode
  | c :: rest =>
    if mode = .blank ∧ c = '#' then .comment passed.reverse
    else passLine (mode.next c) (c :: passed) rest

def withoutLineEnd (cs : List Char) : List Char :=
  match cs.reverse with
  | '\n' :: '\r' :: rest => rest.reverse
  | '\n' :: rest => rest.reverse
  | _ => cs

/-- The logical lines of a file, given its physical ones with their line ends. A quote that stays
open to the end makes the last line wrong, which is `none`. -/
def logicalLines (mode : Mode) (before : List Char) : List (List Char) → List (Option (List Char))
  | [] => if mode = .plain then [] else [none]
  | line :: rest =>
    let whole := before ++ line
    if (Text.trimStart whole).head? = some '#' then some [] :: logicalLines .plain [] rest
    else
      match passLine mode [] line with
      | .comment kept => some (before ++ kept) :: logicalLines .plain [] rest
      | .open_ .plain => some (withoutLineEnd whole) :: logicalLines .plain [] rest
      | .open_ mode => logicalLines mode whole rest

/-- The physical lines of a text, with their line ends. -/
def physicalLines (cs : List Char) : List (List Char) :=
  let lines := Text.linesOf cs
  (lines.dropLast.map (· ++ ['\n'])) ++ (lines.drop (lines.length - 1)).filter (· ≠ [])

/-! ## Values -/

/-- How the name of a variable that is to be filled in is being read. -/
inductive Naming where
  | none
  /-- After a dollar sign. -/
  | bare (name : List Char)
  /-- In braces. -/
  | braced (name : List Char)
deriving DecidableEq, Repr

structure ValueState where
  strong : Bool
  weak : Bool
  escaped : Bool
  /-- Nothing may come any more but a comment. -/
  ended : Bool
  naming : Naming
  /-- In reverse. -/
  output : List Char

def ValueState.start : ValueState := ⟨false, false, false, false, .none, []⟩

def ValueState.push (s : ValueState) (c : Char) : ValueState := { s with output := c :: s.output }

def ValueState.fill (s : ValueState) (vars : String → String) (name : List Char) : ValueState :=
  { s with naming := .none, output := (vars (String.ofList name.reverse)).toList.reverse ++ s.output }

def escape? : Char → Option Char
  | 'n' => some '\n'
  | c => if ['\\', '\'', '"', '$', ' '].contains c then some c else none

/-- One character of a value outside of names. -/
def valueStep (s : ValueState) (c : Char) : ValueState :=
  if s.strong then (if c = '\'' then { s with strong := false } else s.push c)
  else if c = '$' then { s with naming := .bare [] }
  else if s.weak then
    if c = '"' then { s with weak := false }
    else if c = '\\' then { s with escaped := true }
    else s.push c
  else if c = '\'' then { s with strong := true }
  else if c = '"' then { s with weak := true }
  else if c = '\\' then { s with escaped := true }
  else if c = ' ' ∨ c = '\t' then { s with ended := true }
  else s.push c

/-- One character of a value while a name is being read. -/
def namingStep (vars : String → String) (s : ValueState) (c : Char) : ValueState :=
  match s.naming with
  | .none => valueStep s c
  | .bare name =>
    if Text.isAlphanumeric c then { s with naming := .bare (c :: name) }
    else if c = '{' ∧ name = [] then { s with naming := .braced [] }
    else
      let s := s.fill vars name
      if c = '$' then { s with naming := .bare [] } else s.push c
  | .braced name =>
    if Text.isAlphanumeric c ∨ c ≠ '}' then { s with naming := .braced (c :: name) }
    else s.fill vars name

/-- The value that the rest of a line gives. -/
def readValue (vars : String → String) (s : ValueState) : List Char → Option (List Char)
  | [] =>
    match s.naming with
    | .braced _ => none
    | .bare name => if s.strong || s.weak then none else some (s.fill vars name).output.reverse
    | .none => if s.strong || s.weak then none else some (s.fill vars []).output.reverse
  | c :: rest =>
    if s.ended then
      if c = ' ' ∨ c = '\t' then readValue vars s rest
      else if c = '#' then readValue vars s []
      else none
    else if s.escaped then
      match escape? c with
      | some c => readValue vars { s.push c with escaped := false } rest
      | none => none
    else readValue vars (namingStep vars s c) rest

/-! ## Variables -/

def isKeyStart (c : Char) : Bool := Text.isAsciiLetter c || c == '_'

def isKeyPart (c : Char) : Bool :=
  Text.isAsciiLetter c || Text.isAsciiDigit c || c == '_' || c == '.'

/-- A key, and what follows it and the blanks after it. -/
def readKey (cs : List Char) : Option (String × List Char) :=
  if cs.head?.any isKeyStart then
    let key := cs.takeWhile isKeyPart
    some (String.ofList key, Text.trimStart (cs.drop key.length))
  else none

def afterEqual? : List Char → Option (List Char)
  | '=' :: rest => some (Text.trimStart rest)
  | _ => none

/-- A line before its value: the key, and the text of the value. The word `export` may come before
the key. -/
def readStart (cs : List Char) : Option (String × List Char) := do
  let (key, rest) ← readKey cs
  match afterEqual? rest with
  | some value => some (key, value)
  | none =>
    if key = "export" then
      let (key, rest) ← readKey rest
      (afterEqual? rest).map fun value => (key, value)
    else none

/-- The variable of a line: nothing if the line is wrong, and no variable on an empty line. -/
def readLine (vars : String → String) (line : List Char) : Option (Option (String × String)) :=
  match Text.trim line with
  | [] => some none
  | '#' :: _ => some none
  | cs =>
    match readStart cs with
    | none => none
    | some (key, value) =>
      if value = [] ∨ value.head? = some '#' then some (some (key, ""))
      else (readValue vars .start value).map fun v => some (key, String.ofList v)

/-- The variables of the process after those of some lines are added; `seen` are the values that
the lines before gave. -/
def addLines (environment seen : Table String) : List (Option (List Char)) → Table String
  | [] => environment
  | none :: _ => environment
  | some line :: rest =>
    let vars (name : String) : String :=
      ((Table.get? environment name).or (Table.get? seen name)).getD ""
    match readLine vars line with
    | none => environment
    | some none => addLines environment seen rest
    | some (some (key, value)) =>
      let environment :=
        if Table.has environment key then environment else Table.insert environment key value
      addLines environment (Table.insert seen key value) rest

/-- The variables of the process together with those of a file. -/
def load (text : String) (environment : Table String) : Table String :=
  let cs := match text.toList with
    | '\ufeff' :: rest => rest
    | cs => cs
  addLines environment [] (logicalLines .plain [] (physicalLines cs))

end PipelineScript.EnvFile
