import PipelineScript.Json
import PipelineScript.Numeral.Binary64
import PipelineScript.Numeral.Integer
import PipelineScript.Settings
import PipelineScript.Text.LetterCase

/-! # Settings from data

Settings come in sections. A section is an object, or an array with its fields in order; what it
leaves out has its standard value, and what it has besides is passed over. How strictly a scalar is
read depends on where the data comes from. -/

namespace PipelineScript

/-- How scalars are read. -/
structure Scalars where
  nat? : Json → Option Nat
  bool? : Json → Option Bool

namespace Scalars

def wordLimit : Nat := Numeral.twoTo 64

/-- A file on its own is taken literally. -/
def strict : Scalars where
  nat?
    | .int i => if 0 ≤ i then some i.toNat else none
    | _ => none
  bool?
    | .bool b => some b
    | _ => none

/-- The words for a truth value. -/
def truthWord? : String → Option Bool
  | "true" | "on" | "yes" => some true
  | "false" | "off" | "no" => some false
  | _ => none

/-- Digits, perhaps after a plus sign. -/
def readNat? (cs : List Char) : Option Nat :=
  let digits := match cs with
    | '+' :: rest => rest
    | cs => cs
  if digits ≠ [] ∧ digits.all Text.isAsciiDigit ∧ Numeral.valueOf 10 digits < wordLimit then
    some (Numeral.valueOf 10 digits)
  else none

/-- The nearest whole number that is not negative and fits in 64 bits; halves go up. -/
def roundToNat (x : Float) : Nat :=
  match Numeral.parts x with
  | .nan => 0
  | .infinite negative => if negative then 0 else wordLimit - 1
  | .finite negative m e =>
    if negative then 0
    else min (wordLimit - 1) ((Numeral.scale (2 * m) e + 1) / 2)

/-- Where layers are put together, every scalar is made into what is wanted, if it can be. -/
def lenient : Scalars where
  nat?
    | .int i => if 0 ≤ i then some i.toNat else none
    | .bool b => some (if b then 1 else 0)
    | .float x => some (roundToNat x)
    | .str s =>
      match truthWord? (Text.toLowerCase s) with
      | some b => some (if b then 1 else 0)
      | none => readNat? s.toList
    | _ => none
  bool?
    | .int i => some (i ≠ 0)
    | .bool b => some b
    | .float x => some (x != 0.0)
    | .str s =>
      match Text.toLowerCase s with
      | "1" => some true
      | "0" => some false
      | word => truthWord? word
    | _ => none

end Scalars

namespace Settings

/-- A field of a section by its name and its place. Nothing is a section but objects and arrays. -/
def field? (name : String) (place : Nat) : Json → Option (Option Json)
  | .obj members => some (Table.get? members name)
  | .arr items => some items[place]?
  | _ => none

/-- A field that has a standard value. -/
def fieldOr {α : Type} (section_ : Json) (name : String) (place : Nat) (standard : α)
    (value? : Json → Option α) : Option α :=
  match field? name place section_ with
  | none => none
  | some none => some standard
  | some (some j) => value? j

def named? (scalars : Scalars) : Json → Option (Table Nat)
  | .obj members => do
    let pools ← members.mapM fun (name, j) => (scalars.nat? j).map fun threads => (name, threads)
    return Table.ofEntries pools
  | _ => none

/-- The settings that a document gives. -/
def ofJson? (scalars : Scalars) (j : Json) : Option Settings := do
  let standard := Settings.default_
  let (maxDuration, monitor) ←
    fieldOr j "interpreter" 0 (standard.maxDurationMillis, standard.monitor) fun section_ => do
      let maxDuration ←
        fieldOr section_ "max_duration_ms" 0 standard.maxDurationMillis scalars.nat?
      let monitor ← fieldOr section_ "monitor" 1 standard.monitor scalars.bool?
      return (maxDuration, monitor)
  let sweep ← fieldOr j "cache" 1 standard.sweepIntervalSeconds fun section_ =>
    fieldOr section_ "sweep_interval_secs" 0 standard.sweepIntervalSeconds scalars.nat?
  let (threads, named) ←
    fieldOr j "pools" 2 (standard.defaultThreads, standard.named) fun section_ => do
      let threads ← fieldOr section_ "default_threads" 0 standard.defaultThreads scalars.nat?
      let named ← fieldOr section_ "named" 1 standard.named (named? scalars)
      return (threads, named)
  return ⟨maxDuration, monitor, sweep, threads, named⟩

end Settings

end PipelineScript
