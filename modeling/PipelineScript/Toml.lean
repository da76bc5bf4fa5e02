import PipelineScript.Json
import PipelineScript.Table

/-! # TOML documents

A document is built line by line. How a table came about decides what may still be added to it: a
table that was written out is finished, one that was only passed through may be opened once. -/

namespace PipelineScript

inductive TableOrigin where
  /-- Opened by a header of its own. -/
  | header
  /-- Passed through by the header of another table. -/
  | implied
  /-- Passed through by a dotted key. -/
  | dotted
  /-- Written as a value in braces. -/
  | inline
deriving DecidableEq, Repr

inductive Toml where
  | str (s : String)
  | int (i : Int)
  | float (x : Float)
  | bool (b : Bool)
  /-- A date, a time or both. Nothing is made of it. -/
  | date
  | arr (items : List Toml)
  | table (origin : TableOrigin) (entries : List (String × Toml))
  /-- Tables that were opened under one name by headers in double brackets. -/
  | tables (elements : List (List (String × Toml)))

namespace Toml

/-- Changes the table at the end of a path, which begins in a table with the given entries. Tables
that are missing on the way are added; of several tables of one name, the last one counts. A dotted
key does not pass through a table with a header of its own. -/
def within (dottedKey : Bool) (change : TableOrigin → Table Toml → Option (Table Toml)) :
    List String → TableOrigin → Table Toml → Option (Table Toml)
  | [], origin, entries => change origin entries
  | key :: path, _, entries =>
    match Table.get? entries key with
    | none =>
      let origin := if dottedKey then .dotted else .implied
      (within dottedKey change path origin []).map fun inner =>
        Table.insert entries key (.table origin inner)
    | some (.table origin inner) =>
      if origin = .inline ∨ (dottedKey ∧ origin = .header) then none
      else
        (within dottedKey change path origin inner).map fun inner =>
          Table.insert entries key (.table origin inner)
    | some (.tables elements) =>
      match elements.getLast? with
      | none => none
      | some last =>
        (within dottedKey change path .header last).map fun last =>
          Table.insert entries key (.tables (elements.dropLast ++ [last]))
    | some _ => none

/-- Adds a value under a key, perhaps a dotted one. What was not made by dotted keys is not added
to by them, and no key is given twice. -/
def addPair (path : List String) (key : String) (value : Toml) (entries : Table Toml) :
    Option (Table Toml) :=
  within true
    (fun origin inner =>
      if (path ≠ [] ∧ origin ≠ .dotted) ∨ Table.has inner key then none
      else some (Table.insert inner key value))
    path .header entries

/-- Opens a table by its header. -/
def openTable (path : List String) (key : String) (root : Table Toml) : Option (Table Toml) :=
  within false
    (fun _ entries =>
      match Table.get? entries key with
      | none => some (Table.insert entries key (.table .header []))
      | some (.table .implied inner) => some (Table.insert entries key (.table .header inner))
      | some _ => none)
    path .header root

/-- Opens one more table under a name by a header in double brackets. -/
def openElement (path : List String) (key : String) (root : Table Toml) : Option (Table Toml) :=
  within false
    (fun _ entries =>
      match Table.get? entries key with
      | none => some (Table.insert entries key (.tables [[]]))
      | some (.tables elements) => some (Table.insert entries key (.tables (elements ++ [[]])))
      | some _ => none)
    path .header root

mutual

/-- The data of a document, with the given stand-in for dates. -/
def toJson (date : Json) : Toml → Json
  | .str s => .str s
  | .int i => .int i
  | .float x => .float x
  | .bool b => .bool b
  | .date => date
  | .arr items => .arr (itemsJson date items)
  | .table _ entries => .obj (entriesJson date entries)
  | .tables elements => .arr (elementsJson date elements)

def itemsJson (date : Json) : List Toml → List Json
  | [] => []
  | t :: rest => toJson date t :: itemsJson date rest

def entriesJson (date : Json) : List (String × Toml) → List (String × Json)
  | [] => []
  | (k, t) :: rest => (k, toJson date t) :: entriesJson date rest

def elementsJson (date : Json) : List (List (String × Toml)) → List Json
  | [] => []
  | entries :: rest => .obj (entriesJson date entries) :: elementsJson date rest

end

end Toml

end PipelineScript
