import PipelineScript.Numeral.Decimal
import PipelineScript.Table

/-! # JSON values and their text

A number is a whole number or a double. The members of an object are listed in the order in which
they are written; objects that come from text or from a table list their keys in ascending order. -/

namespace PipelineScript

inductive Json where
  | null
  | bool (b : Bool)
  | int (i : Int)
  | float (x : Float)
  | str (s : String)
  | arr (items : List Json)
  | obj (members : List (String × Json))
deriving Inhabited

namespace Json

/-- The value of a member of an object. -/
def get? (j : Json) (key : String) : Option Json :=
  match j with
  | obj members => Table.get? members key
  | _ => none

/-! ## Scalars -/

/-- The fewest digits that read back, the even ones of two that are equally near. Doubles below
`10 ^ 16` and from `10 ^ -5` are written without an exponent; what is no finite number is `null`. -/
def floatText (x : Float) : String :=
  match Numeral.parts x with
  | .finite negative m e =>
    let d := Numeral.shortest .toEven m e
    Numeral.signText negative ++
      (if -5 ≤ d.exponent && d.exponent ≤ 15 then d.positional else d.scientific)
  | _ => "null"

def hexDigitsOf (n places : Nat) : List Char :=
  let ds := Nat.toDigits 16 n
  Numeral.zeros (places - ds.length) ++ ds

/-- Only quotes, backslashes and control characters are escaped. -/
def escapeChar (c : Char) : List Char :=
  match c with
  | '"' => ['\\', '"']
  | '\\' => ['\\', '\\']
  | '\n' => ['\\', 'n']
  | '\r' => ['\\', 'r']
  | '\t' => ['\\', 't']
  | '\x08' => ['\\', 'b']
  | '\x0c' => ['\\', 'f']
  | c => if c < ' ' then '\\' :: 'u' :: hexDigitsOf c.toNat 4 else [c]

def stringText (s : String) : String :=
  "\"" ++ String.ofList (s.toList.flatMap escapeChar) ++ "\""

/-! ## Compact text -/

mutual

def compact : Json → String
  | null => "null"
  | bool b => if b then "true" else "false"
  | int i => toString i
  | float x => floatText x
  | str s => stringText s
  | arr items => "[" ++ compactItems items ++ "]"
  | obj members => "\x7b" ++ compactMembers members ++ "\x7d"

def compactItems : List Json → String
  | [] => ""
  | [j] => compact j
  | j :: rest => compact j ++ "," ++ compactItems rest

def compactMembers : List (String × Json) → String
  | [] => ""
  | [(k, j)] => stringText k ++ ":" ++ compact j
  | (k, j) :: rest => stringText k ++ ":" ++ compact j ++ "," ++ compactMembers rest

end

/-! ## Indented text -/

/-- A new line with two blanks for each level. -/
def lineBreak (depth : Nat) : String := "\n" ++ String.ofList (List.replicate (2 * depth) ' ')

mutual

/-- The text of a value that stands at `depth`. -/
def pretty (depth : Nat) : Json → String
  | arr [] => "[]"
  | obj [] => "\x7b\x7d"
  | arr (j :: rest) =>
    "[" ++ lineBreak (depth + 1) ++ pretty (depth + 1) j ++ prettyItems (depth + 1) rest ++
      lineBreak depth ++ "]"
  | obj ((k, j) :: rest) =>
    "\x7b" ++ lineBreak (depth + 1) ++ stringText k ++ ": " ++ pretty (depth + 1) j ++
      prettyMembers (depth + 1) rest ++ lineBreak depth ++ "\x7d"
  | null => "null"
  | bool b => if b then "true" else "false"
  | int i => toString i
  | float x => floatText x
  | str s => stringText s

def prettyItems (depth : Nat) : List Json → String
  | [] => ""
  | j :: rest => "," ++ lineBreak depth ++ pretty depth j ++ prettyItems depth rest

def prettyMembers (depth : Nat) : List (String × Json) → String
  | [] => ""
  | (k, j) :: rest =>
    "," ++ lineBreak depth ++ stringText k ++ ": " ++ pretty depth j ++ prettyMembers depth rest

end

end Json

end PipelineScript
