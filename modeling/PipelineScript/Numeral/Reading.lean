import PipelineScript.Numeral.Integer

/-! # Reading doubles

Decimal text becomes the nearest double. Exponents far outside the range of doubles are settled by
the number of digits, without raising ten to them. -/

namespace PipelineScript.Numeral

/-- The double nearest to `mantissa * 10 ^ exponent`. -/
def nearest (mantissa : Nat) (exponent : Int) : Float :=
  let size := exponent + (Nat.toDigits 10 mantissa).length
  if mantissa = 0 ∨ size < -400 then 0.0
  else if 400 < size then 1.0 / 0.0
  else Float.ofScientific mantissa (exponent < 0) exponent.natAbs

def spanDigits (cs : List Char) : List Char × List Char :=
  (cs.takeWhile Text.isAsciiDigit, cs.dropWhile Text.isAsciiDigit)

/-- An exponent mark with its digits, which end the text; no mark is the exponent zero. -/
def readExponent? : List Char → Option Int
  | [] => some 0
  | e :: cs =>
    if e = 'e' ∨ e = 'E' then
      let digits? : List Char → Option Nat := fun ds =>
        if ds ≠ [] ∧ ds.all Text.isAsciiDigit then some (valueOf 10 ds) else none
      match cs with
      | '-' :: ds => (digits? ds).map fun n => -(n : Int)
      | '+' :: ds => (digits? ds).map fun n => (n : Int)
      | ds => (digits? ds).map fun n => (n : Int)
    else none

/-- Digits with an optional point among them, before an optional exponent. -/
def readUnsigned? (cs : List Char) : Option Float :=
  let (whole, rest) := spanDigits cs
  let (point, rest) := match rest with
    | '.' :: rest => spanDigits rest
    | rest => ([], rest)
  if whole = [] ∧ point = [] then none
  else (readExponent? rest).map fun exponent =>
    nearest (valueOf 10 (whole ++ point)) (exponent - point.length)

def lowerAscii (c : Char) : Char := if 'A' ≤ c ∧ c ≤ 'Z' then Char.ofNat (c.toNat + 32) else c

/-- A number, or one of the words for infinity and for what is no number, after an optional sign. -/
def readFloat? (cs : List Char) : Option Float :=
  let unsigned? : List Char → Option Float := fun cs =>
    match String.ofList (cs.map lowerAscii) with
    | "inf" | "infinity" => some (1.0 / 0.0)
    | "nan" => some (0.0 / 0.0)
    | _ => readUnsigned? cs
  match cs with
  | '-' :: cs => (unsigned? cs).map fun x => -x
  | '+' :: cs => unsigned? cs
  | cs => unsigned? cs

end PipelineScript.Numeral
