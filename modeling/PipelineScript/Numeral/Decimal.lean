import PipelineScript.Numeral.Binary64

/-! # Decimal text of doubles

`shortest` finds the fewest digits that read back as the same double; `fixed` rounds to a number of
places; `positional` and `scientific` lay digits out. Which layout a text takes, and which way its
ties go, is decided where the text is written. -/

namespace PipelineScript.Numeral

def tenTo (n : Nat) : Nat := Nat.pow 10 n

/-- Where a number goes that lies halfway between two neighbours. -/
inductive Tie where
  | toEven
  | away
deriving DecidableEq, Repr

/-- `num / den` rounded to the nearest whole number. -/
def roundQuotient (tie : Tie) (num den : Nat) : Nat :=
  let whole := num / den
  match compare (num % den * 2) den, tie with
  | .lt, _ => whole
  | .gt, _ => whole + 1
  | .eq, .away => whole + 1
  | .eq, .toEven => if whole % 2 == 0 then whole else whole + 1

/-- Digits `d₀ d₁ d₂ …` with the meaning `d₀.d₁d₂… * 10 ^ exponent`. -/
structure Digits where
  digits : List Char
  exponent : Int
deriving DecidableEq, Repr

/-- The exponent of the first digit of `num / den`, found by multiplying up. -/
def firstExponent (num den : Nat) : Int :=
  let rec below : Nat → Nat → Nat → Int
    | 0, _, tries => -tries
    | fuel + 1, n, tries => if den ≤ n then -tries else below fuel (n * 10) (tries + 1)
  if den ≤ num then ((Nat.toDigits 10 (num / den)).length : Int) - 1
  else below 400 num 0

/-- `n` as digits, where the last of them stands for `10 ^ unit`. -/
def Digits.ofNat (n : Nat) (unit : Int) : Digits :=
  let ds := Nat.toDigits 10 n
  let kept := (ds.reverse.dropWhile (· == '0')).reverse
  ⟨kept, unit + ds.length - 1⟩

/-- Half of the distance to each neighbour reads back as the same double; all numbers are in
quarters of the last binary place. Below a power of two the neighbour is twice as near. -/
structure Interval where
  low : Nat
  value : Nat
  high : Nat
  closed : Bool

def Interval.around (mantissa : Nat) (exponent : Int) : Interval :=
  let nearer := mantissa == twoTo 52 && exponent > -1074
  ⟨4 * mantissa - (if nearer then 1 else 2), 4 * mantissa, 4 * mantissa + 2, mantissa % 2 == 0⟩

/-- Does `n * 10 ^ unit` read back as the double? The interval is in units of `num / den`. -/
def Interval.holds (i : Interval) (num den : Nat) (n : Nat) (unit : Int) : Bool :=
  let point := if unit < 0 then n * den else n * tenTo unit.toNat * den
  let grid := if unit < 0 then tenTo (-unit).toNat * num else num
  let low := i.low * grid
  let high := i.high * grid
  if i.closed then low ≤ point && point ≤ high else low < point && point < high

/-- The fewest digits that read back as `mantissa * 2 ^ exponent`, and of those the nearest; of two
that are equally near, `tie` chooses. -/
def shortest (tie : Tie) (mantissa : Nat) (exponent : Int) : Digits :=
  if mantissa = 0 then ⟨['0'], 0⟩ else
  let i := Interval.around mantissa exponent
  let num := if exponent < 2 then 1 else twoTo (exponent - 2).toNat
  let den := if exponent < 2 then twoTo (2 - exponent).toNat else 1
  let first := firstExponent (i.value * num) den
  let rec search : Nat → Nat → Digits
    | 0, _ => Digits.ofNat 0 0
    | fuel + 1, count =>
      let unit := first - count + 1
      let scaled := if unit < 0 then i.value * num * tenTo (-unit).toNat else i.value * num
      let grid := if unit < 0 then den else den * tenTo unit.toNat
      let below := scaled / grid
      let fits := i.holds num den
      match fits below unit && below ≠ 0, fits (below + 1) unit with
      | true, true => Digits.ofNat (roundQuotient tie scaled grid) unit
      | true, false => Digits.ofNat below unit
      | false, true => Digits.ofNat (below + 1) unit
      | false, false => search fuel (count + 1)
  search 17 1

def zeros (n : Nat) : List Char := List.replicate n '0'

/-- Digits around a decimal point, with one digit at least on either side of it. -/
def Digits.positional (d : Digits) : String :=
  if d.exponent < 0 then
    String.ofList ('0' :: '.' :: zeros (-d.exponent - 1).toNat ++ d.digits)
  else
    let whole := d.exponent.toNat + 1
    let before := d.digits.take whole ++ zeros (whole - d.digits.length)
    let after := d.digits.drop whole
    String.ofList (before ++ '.' :: (if after = [] then ['0'] else after))

/-- One digit before the point, and the exponent with its sign. -/
def Digits.scientific (d : Digits) : String :=
  let tail := if d.digits.length ≤ 1 then [] else '.' :: d.digits.drop 1
  let sign := if d.exponent < 0 then '-' else '+'
  String.ofList (d.digits.take 1 ++ tail ++ ['e', sign] ++ Nat.toDigits 10 d.exponent.natAbs)

def signText (negative : Bool) : String := if negative then "-" else ""

def nonFiniteText : Parts → String
  | .nan => "NaN"
  | .infinite negative => signText negative ++ "inf"
  | .finite .. => ""

/-- A double with a set number of places after the point, at least one; a half goes to the even
neighbour. -/
def fixed (places : Nat) (x : Float) : String :=
  match parts x with
  | .finite negative m e =>
    let num := m * tenTo places * (if e < 0 then 1 else twoTo e.toNat)
    let n := roundQuotient .toEven num (if e < 0 then twoTo (-e).toNat else 1)
    let ds := Nat.toDigits 10 n
    let ds := zeros (places + 1 - ds.length) ++ ds
    let split := ds.length - places
    signText negative ++ String.ofList (ds.take split ++ '.' :: ds.drop split)
  | other => nonFiniteText other

end PipelineScript.Numeral
