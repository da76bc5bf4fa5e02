import PipelineScript.Json
import PipelineScript.Numeral.Integer

/-! # Reading JSON

A reader of the whole grammar: one value, blanks around it, and nothing else. Arrays and objects may
nest 127 deep. Of two members with one key the later counts. Whole numbers are kept as such as far
as 64 bits reach; for any other number as many digits as fit in 64 bits are read and then scaled by
a power of ten, so its last binary place may be off by one. -/

namespace PipelineScript.Json

open Text

def isJsonBlank (c : Char) : Bool := c == ' ' || c == '\n' || c == '\t' || c == '\r'

def skipBlanks (cs : List Char) : List Char := cs.dropWhile isJsonBlank

/-! ## Numbers -/

def wordLimit : Nat := Numeral.twoTo 64

/-- Digits of the whole part from the left: their value as far as it fits, and the number of digits
left over from the first that does not. -/
def takeWhole (value : Nat) : List Char → Nat × Nat
  | [] => (value, 0)
  | d :: ds =>
    let next := 10 * value + Numeral.digitValue d
    if next < wordLimit then takeWhole next ds else (value, ds.length + 1)

/-- Digits after the point: the value with those that fit, and their number. -/
def takePoint (value count : Nat) : List Char → Nat × Nat
  | [] => (value, count)
  | d :: ds =>
    let next := 10 * value + Numeral.digitValue d
    if next < wordLimit then takePoint next (count + 1) ds else (value, count)

/-- Multiplies or divides by powers of ten that are doubles. Only a product can leave the range. -/
def scaleTen (fuel : Nat) (x : Float) (exponent : Int) : Option Float :=
  if exponent.natAbs ≤ 308 then
    let power := Float.ofScientific 1 false exponent.natAbs
    if exponent < 0 then some (x / power)
    else if Numeral.isFinite (x * power) then some (x * power) else none
  else if x == 0.0 then some x
  else if 0 ≤ exponent then none
  else
    match fuel with
    | 0 => some 0.0
    | fuel + 1 => scaleTen fuel (x / Float.ofScientific 1 false 308) (exponent + 308)

/-- A double from a value below `wordLimit`. -/
def ofParts (negative : Bool) (value : Nat) (exponent : Int) : Option Float :=
  (scaleTen 8 value.toUInt64.toFloat exponent).map fun x => if negative then -x else x

/-- An exponent beyond 31 bits is an overflow, or it makes the number zero. -/
def ofExponent (negative : Bool) (value : Nat) (start : Int) (positive : Bool) (digits : List Char) :
    Option Float :=
  let n := Numeral.valueOf 10 digits
  if n < Numeral.twoTo 31 then ofParts negative value (if positive then start + n else start - n)
  else if value ≠ 0 && positive then none
  else some (if negative then -0.0 else 0.0)

/-- The exponent after its mark: whether it is positive, its digits, and the rest of the text. -/
def exponentPart (cs : List Char) : Option ((Bool × List Char) × List Char) :=
  let (positive, cs) := match cs with
    | '+' :: cs => (true, cs)
    | '-' :: cs => (false, cs)
    | cs => (true, cs)
  match cs.takeWhile isAsciiDigit with
  | [] => none
  | ds => some ((positive, ds), cs.dropWhile isAsciiDigit)

/-- A whole number unless it is negative zero or beyond 64 bits. -/
def ofWhole (negative : Bool) (value : Nat) : Json :=
  if negative then
    if value = 0 ∨ Numeral.twoTo 63 < value then float (-value.toUInt64.toFloat) else int (-value)
  else int value

def isExponentMark (c : Char) : Bool := c == 'e' || c == 'E'

def readUnsigned (negative : Bool) (cs : List Char) : Option (Json × List Char) := do
  let whole := cs.takeWhile isAsciiDigit
  let rest := cs.dropWhile isAsciiDigit
  if whole = [] ∨ (whole.head? = some '0' ∧ 1 < whole.length) then none
  else
    let (value, dropped) := takeWhole 0 whole
    let finish := fun (value : Nat) (exponent : Int) (rest : List Char) => (do
      match rest with
      | e :: tail =>
        if isExponentMark e then
          let ((positive, ds), rest) ← exponentPart tail
          let x ← ofExponent negative value exponent positive ds
          some (float x, rest)
        else (ofParts negative value exponent).map fun x => (float x, rest)
      | [] => (ofParts negative value exponent).map fun x => (float x, []) : Option (Json × List Char))
    match rest with
    | '.' :: tail =>
      match tail.takeWhile isAsciiDigit with
      | [] => none
      | ds =>
        let (value, count) := takePoint value 0 ds
        finish value (dropped - count) (tail.dropWhile isAsciiDigit)
    | e :: _ =>
      if isExponentMark e ∨ dropped ≠ 0 then finish value dropped rest
      else some (ofWhole negative value, rest)
    | [] => if dropped ≠ 0 then finish value dropped [] else some (ofWhole negative value, [])

def readNumber : List Char → Option (Json × List Char)
  | '-' :: cs => readUnsigned true cs
  | cs => readUnsigned false cs

/-! ## Strings -/

def fourHex? (a b c d : Char) : Option Nat :=
  ([a, b, c, d].mapM hexValue?).map fun places => places.foldl (fun n v => 16 * n + v) 0

def isLow (n : Nat) : Bool := 0xdc00 ≤ n && n ≤ 0xdfff

def isHigh (n : Nat) : Bool := 0xd800 ≤ n && n ≤ 0xdbff

def escape? : Char → Option Char
  | '"' => some '"' | '\\' => some '\\' | '/' => some '/' | 'b' => some '\x08'
  | 'f' => some '\x0c' | 'n' => some '\n' | 'r' => some '\r' | 't' => some '\t'
  | _ => none

def consFirst (c : Char) (read : List Char × List Char) : List Char × List Char :=
  (c :: read.1, read.2)

/-- The contents of a string after its opening quote. An escape by number may need a second one:
the two halves of a pair make one character, and half a pair is an error. -/
def readString : List Char → Option (List Char × List Char)
  | [] => none
  | '"' :: rest => some ([], rest)
  | '\\' :: 'u' :: a :: b :: c :: d :: rest =>
    match fourHex? a b c d with
    | none => none
    | some n =>
      if isLow n then none
      else if isHigh n then
        match rest with
        | '\\' :: 'u' :: e :: f :: g :: h :: rest =>
          match fourHex? e f g h with
          | none => none
          | some m =>
            if isLow m then
              (readString rest).map
                (consFirst (Char.ofNat (0x10000 + (n - 0xd800) * 0x400 + (m - 0xdc00))))
            else none
        | _ => none
      else (readString rest).map (consFirst (Char.ofNat n))
  | '\\' :: e :: rest =>
    match escape? e with
    | none => none
    | some c => (readString rest).map (consFirst c)
  | c :: rest => if c < ' ' ∨ c = '\\' then none else (readString rest).map (consFirst c)

def readText (cs : List Char) : Option (String × List Char) :=
  (readString cs).map fun (text, rest) => (String.ofList text, rest)

/-! ## Values -/

mutual

/-- A value that may nest `depth` deep. -/
def readValue : Nat → Nat → List Char → Option (Json × List Char)
  | 0, _, _ => none
  | fuel + 1, depth, cs =>
    match skipBlanks cs, depth with
    | '"' :: rest, _ => (readText rest).map fun (s, rest) => (str s, rest)
    | '[' :: rest, depth + 1 =>
      match skipBlanks rest with
      | ']' :: rest => some (arr [], rest)
      | rest => (readItems fuel depth rest).map fun (js, rest) => (arr js, rest)
    | '{' :: rest, depth + 1 =>
      match skipBlanks rest with
      | '}' :: rest => some (obj [], rest)
      | rest => (readMembers fuel depth rest).map fun (ms, rest) => (obj (Table.ofEntries ms), rest)
    | 'n' :: 'u' :: 'l' :: 'l' :: rest, _ => some (null, rest)
    | 't' :: 'r' :: 'u' :: 'e' :: rest, _ => some (bool true, rest)
    | 'f' :: 'a' :: 'l' :: 's' :: 'e' :: rest, _ => some (bool false, rest)
    | cs, _ => readNumber cs

/-- One or more values between commas, and the closing bracket. -/
def readItems : Nat → Nat → List Char → Option (List Json × List Char)
  | 0, _, _ => none
  | fuel + 1, depth, cs => do
    let (j, rest) ← readValue fuel depth cs
    match skipBlanks rest with
    | ',' :: rest =>
      let (js, rest) ← readItems fuel depth rest
      some (j :: js, rest)
    | ']' :: rest => some ([j], rest)
    | _ => none

/-- One or more members between commas, and the closing brace. -/
def readMembers : Nat → Nat → List Char → Option ((List (String × Json)) × List Char)
  | 0, _, _ => none
  | fuel + 1, depth, cs =>
    match skipBlanks cs with
    | '"' :: rest => do
      let (k, rest) ← readText rest
      match skipBlanks rest with
      | ':' :: rest =>
        let (j, rest) ← readValue fuel depth rest
        match skipBlanks rest with
        | ',' :: rest =>
          let (ms, rest) ← readMembers fuel depth rest
          some ((k, j) :: ms, rest)
        | '}' :: rest => some ([(k, j)], rest)
        | _ => none
      | _ => none
    | _ => none

end

/-- The value that a text is, blanks around it allowed. -/
def ofText? (s : String) : Option Json :=
  let cs := s.toList
  match readValue (2 * cs.length + 2) 127 cs with
  | some (j, rest) => if skipBlanks rest = [] then some j else none
  | none => none

end PipelineScript.Json
