import PipelineScript.Instant
import PipelineScript.Numeral.Integer
import PipelineScript.Table

/-! # Values

What expressions evaluate to and what the host and its tasks exchange with a script. -/

namespace PipelineScript

inductive Value where
  | null
  | bool (b : Bool)
  | int (i : Int64)
  | float (x : Float)
  | str (s : String)
  | date (d : Instant)
  /-- A type of the host, known by its name. -/
  | handle (name : String)
  | list (items : List Value)
  /-- The keys ascend. -/
  | map (entries : List (String × Value))
deriving Inhabited

namespace Value

/-- The name that scripts and error messages use for the kind of a value. -/
def typeName : Value → String
  | null => "null" | bool _ => "bool" | int _ => "int" | float _ => "float" | str _ => "string"
  | date _ => "date" | handle _ => "type" | list _ => "list" | map _ => "map"

def isNull : Value → Bool
  | null => true
  | _ => false

/-- Does the value count as true in a condition? -/
def isTruthy : Value → Bool
  | null => false
  | bool b => b
  | int i => i != 0
  | float x => x != 0.0
  | str s => s != ""
  | list items => !items.isEmpty
  | map entries => !entries.isEmpty
  | date _ | handle _ => true

/-- Does the value have the declared type? A name that is no type of the language is not checked,
and `null` has every type that is. -/
def matchesType? (v : Value) (declared : String) : Option Bool :=
  match declared, v with
  | "any", _ => some true
  | "int", .int _ | "long", .int _ => some true
  | "float", .int _ | "double", .int _ | "number", .int _ => some true
  | "float", .float _ | "double", .float _ | "number", .float _ => some true
  | "bool", .bool _ | "boolean", .bool _ => some true
  | "string", .str _ | "String", .str _ => some true
  | "list", .list _ | "List", .list _ => some true
  | "map", .map _ | "Map", .map _ => some true
  | "date", .date _ | "Date", .date _ => some true
  | declared, v =>
    if ["int", "long", "float", "double", "number", "bool", "boolean", "string", "String", "list",
        "List", "map", "Map", "date", "Date"].contains declared then some v.isNull
    else none

/-- The integer that a value stands for: a double has to be whole, and one out of range gives the
nearest. -/
def asInt64? : Value → Option Int64
  | int i => some i
  | float x => if Numeral.isWhole x then some (Numeral.saturate (Numeral.truncate x)) else none
  | _ => none

def asFloat? : Value → Option Float
  | int i => some i.toFloat
  | float x => some x
  | _ => none

def asText? : Value → Option String
  | str s => some s
  | _ => none

mutual

/-- Same kind and same content. Doubles are compared as numbers: a value with something in it that
is no number is not even the same as itself. -/
def same : Value → Value → Bool
  | null, null => true
  | bool a, bool b => a == b
  | int a, int b => a == b
  | float a, float b => a == b
  | str a, str b => a == b
  | date a, date b => a == b
  | handle a, handle b => a == b
  | list as, list bs => sameItems as bs
  | map as, map bs => sameEntries as bs
  | _, _ => false

def sameItems : List Value → List Value → Bool
  | [], [] => true
  | a :: as, b :: bs => same a b && sameItems as bs
  | _, _ => false

def sameEntries : List (String × Value) → List (String × Value) → Bool
  | [], [] => true
  | (j, a) :: as, (k, b) :: bs => j == k && same a b && sameEntries as bs
  | _, _ => false

end

end Value

end PipelineScript
