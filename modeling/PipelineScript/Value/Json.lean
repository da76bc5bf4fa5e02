import PipelineScript.Json
import PipelineScript.Value

/-! # Values as JSON

Dates and types become strings, and what is no finite number becomes `null`; everything else keeps
its shape. The way back needs no more than that: a number with a point or an exponent is a double,
and a whole number is an integer as far as 64 bits reach. -/

namespace PipelineScript.Value

mutual

/-- A value as JSON, with the given text for dates. -/
def jsonWith (dateText : Instant → String) : Value → Json
  | null => .null
  | bool b => .bool b
  | int i => .int i.toInt
  | float x => if Numeral.isFinite x then .float x else .null
  | str s => .str s
  | date d => .str (dateText d)
  | handle name => .str name
  | list items => .arr (itemsJson dateText items)
  | map entries => .obj (entriesJson dateText entries)

def itemsJson (dateText : Instant → String) : List Value → List Json
  | [] => []
  | v :: rest => jsonWith dateText v :: itemsJson dateText rest

def entriesJson (dateText : Instant → String) : List (String × Value) → List (String × Json)
  | [] => []
  | (k, v) :: rest => (k, jsonWith dateText v) :: entriesJson dateText rest

end

/-- The JSON that hosts and tasks see. -/
def toJson (v : Value) : Json := jsonWith Instant.text v

/-- The JSON of a stored value, whose dates name their zone by a letter. -/
def toStoredJson (v : Value) : Json := jsonWith Instant.zuluText v

/-- The double nearest to a whole number. -/
def floatOfInt (i : Int) : Float :=
  let x := Float.ofScientific i.natAbs false 0
  if i < 0 then -x else x

mutual

def ofJson : Json → Value
  | .null => null
  | .bool b => bool b
  | .int i =>
    match Numeral.toInt64? i with
    | some w => int w
    | none => float (floatOfInt i)
  | .float x => float x
  | .str s => str s
  | .arr items => list (ofItems items)
  | .obj members => map (ofMembers members)

def ofItems : List Json → List Value
  | [] => []
  | j :: rest => ofJson j :: ofItems rest

def ofMembers : List (String × Json) → List (String × Value)
  | [] => []
  | (k, j) :: rest => (k, ofJson j) :: ofMembers rest

end

end PipelineScript.Value
