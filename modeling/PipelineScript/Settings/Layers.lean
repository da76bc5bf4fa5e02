import PipelineScript.Json
import PipelineScript.Numeral.Integer
import PipelineScript.Numeral.Reading
import PipelineScript.Text.LetterCase

/-! # Layers of settings

A layer is an object that is laid over the ones before it: objects are merged, and anything else
replaces what was there. Keys are in lower case. The key of a layer may be a path, in which dots
lead to members and numbers in brackets to items. -/

namespace PipelineScript.Layers

inductive Step where
  | key (name : String)
  /-- A negative index counts from the end. -/
  | index (i : Int)
deriving DecidableEq, Repr

def isNamePart (c : Char) : Bool :=
  Text.isAsciiLetter c || Text.isAsciiDigit c || c == ' ' || c == '_' || c == '-'

def skipSpaces (cs : List Char) : List Char := cs.dropWhile fun c => c == ' ' || c == '\t'

/-- An index and what follows its bracket. -/
def readIndex (cs : List Char) : Option (Int × List Char) :=
  let cs := skipSpaces cs
  let signed := match cs with
    | '-' :: rest => '-' :: rest.takeWhile Text.isAsciiDigit
    | cs => cs.takeWhile Text.isAsciiDigit
  match Numeral.readInt64? signed, skipSpaces (cs.drop signed.length) with
  | some i, ']' :: rest => some (i.toInt, rest)
  | _, _ => none

def readSteps : Nat → List Char → Option (List Step)
  | _, [] => some []
  | fuel + 1, '.' :: rest =>
    let name := rest.takeWhile isNamePart
    if name = [] then none
    else (readSteps fuel (rest.drop name.length)).map (.key (String.ofList name) :: ·)
  | fuel + 1, '[' :: rest =>
    match readIndex rest with
    | some (i, rest) => (readSteps fuel rest).map (.index i :: ·)
    | none => none
  | _, _ => none

/-- The steps that a key stands for; a key that is no path is one step. -/
def stepsOf (key : String) : List Step :=
  let cs := key.toList
  let name := cs.takeWhile isNamePart
  match (if name = [] then none else readSteps cs.length (cs.drop name.length)) with
  | some steps => .key (String.ofList name) :: steps
  | none => [.key key]

def membersOf : Json → Table Json
  | .obj members => members
  | _ => []

def itemsOf : Json → List Json
  | .arr items => items
  | _ => []

mutual

/-- Lays a value over the member `key` of `base`. -/
def put (base : Json) (key : String) : Json → Json
  | .obj members =>
    let key := Text.toLowerCase key
    let target := (Table.get? (membersOf base) key).getD (.obj [])
    .obj (Table.insert (membersOf base) key (putAll target members))
  | v => .obj (Table.insert (membersOf base) (Text.toLowerCase key) v)

def putAll (base : Json) : List (String × Json) → Json
  | [] => base
  | (k, v) :: rest => putAll (put base k v) rest

end

/-- Replaces an item of a list, which grows as far as it takes. -/
def setItem (items : List Json) (i : Int) (change : Json → Json) : List Json :=
  let n := if i < 0 then items.length - i.natAbs else i.toNat
  let items := items ++ List.replicate (n + 1 - items.length) .null
  items.set n (change (items.getD n .null))

/-- Lays a value over what the steps lead to. -/
def putAt (value : Json) : List Step → Json → Json
  | [], _ => value
  | [.key name], base => put base name value
  | .key name :: rest, base =>
    let name := Text.toLowerCase name
    let inner := (Table.get? (membersOf base) name).getD .null
    .obj (Table.insert (membersOf base) name (putAt value rest inner))
  | .index i :: rest, base => .arr (setItem (itemsOf base) i (putAt value rest))

/-- Lays a layer over `base`. -/
def overlay (base : Json) (layer : List (String × Json)) : Json :=
  layer.foldl (fun base (key, value) => putAt value (stepsOf key) base) base

/-! ## The environment as a layer -/

/-- The value that a variable stands for. -/
def valueOf (s : String) : Json :=
  match Text.toLowerCase s with
  | "true" => .bool true
  | "false" => .bool false
  | _ =>
    match Numeral.readInt64? s.toList with
    | some i => .int i.toInt
    | none =>
      match Numeral.readFloat? s.toList with
      | some x => .float x
      | none => .str s

/-- Two underscores in the name of a variable stand for a dot. -/
def dotted : List Char → List Char
  | '_' :: '_' :: rest => '.' :: dotted rest
  | c :: rest => c :: dotted rest
  | [] => []

/-- The variables of the process that are settings. -/
def ofEnvironment (environment : Table String) : List (String × Json) :=
  environment.filterMap fun (name, value) =>
    match (Text.toLowerCase name).toList with
    | 'n' :: 'f' :: '_' :: '_' :: key => some (String.ofList (dotted key), valueOf value)
    | _ => none

end PipelineScript.Layers
