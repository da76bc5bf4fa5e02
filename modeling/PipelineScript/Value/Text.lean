import PipelineScript.Text.Quoted
import PipelineScript.Value

/-! # The text of values

What `echo` prints and what joins a text with `+`. A string is its own text, but inside a list or a
map it is quoted, so that its commas cannot be taken for the list's. -/

namespace PipelineScript.Value

/-- A whole number shows all of its digits and one zero after the point; any other number shows the
fewest digits that read back, the larger of two that are equally near, and never an exponent. -/
def floatText (x : Float) : String :=
  if Numeral.isWhole x then Numeral.fixed 1 x
  else
    match Numeral.parts x with
    | .finite negative m e => Numeral.signText negative ++ (Numeral.shortest .away m e).positional
    | other => Numeral.nonFiniteText other

mutual

/-- The text of a value; `inner` inside a list or a map, where strings are quoted. -/
def textAs (inner : Bool) : Value → String
  | null => "null"
  | bool b => if b then "true" else "false"
  | int i => toString i.toInt
  | float x => floatText x
  | str s => if inner then Text.quote s else s
  | date d => d.text
  | handle name => "<type " ++ name ++ ">"
  | list items => "[" ++ itemsText items ++ "]"
  | map entries => "\x7b" ++ entriesText entries ++ "\x7d"

def itemsText : List Value → String
  | [] => ""
  | [v] => textAs true v
  | v :: rest => textAs true v ++ ", " ++ itemsText rest

def entriesText : List (String × Value) → String
  | [] => ""
  | [(k, v)] => k ++ ": " ++ textAs true v
  | (k, v) :: rest => k ++ ": " ++ textAs true v ++ ", " ++ entriesText rest

end

def text (v : Value) : String := textAs false v

end PipelineScript.Value
