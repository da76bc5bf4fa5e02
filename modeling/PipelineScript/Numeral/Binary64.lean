/-! # Binary floating point, exactly

A finite double is a whole number times a power of two. Everything that has to be exact about
doubles, such as their digits, their whole part and their remainders, is computed on those two
numbers. -/

namespace PipelineScript.Numeral

/-- What the 64 bits of a double say: `mantissa * 2 ^ exponent` unless it is no number. -/
inductive Parts where
  | nan
  | infinite (negative : Bool)
  | finite (negative : Bool) (mantissa : Nat) (exponent : Int)
deriving DecidableEq, Repr

def twoTo (n : Nat) : Nat := 1 <<< n

def parts (x : Float) : Parts :=
  let bits := x.toBits.toNat
  let negative := bits / twoTo 63 == 1
  let field : Nat := bits / twoTo 52 % twoTo 11
  let fraction : Nat := bits % twoTo 52
  if field = 2047 then (if fraction = 0 then .infinite negative else .nan)
  else if field = 0 then .finite negative fraction (-1074)
  else .finite negative (fraction + twoTo 52) ((field : Int) - 1075)

/-- `n * 2 ^ e` as a whole number, dropping the part below the point. -/
def scale (n : Nat) (e : Int) : Nat := if e < 0 then n >>> (-e).toNat else n <<< e.toNat

/-- The double `mantissa * 2 ^ exponent`, where there is one. -/
def assemble (negative : Bool) (mantissa : Nat) (exponent : Int) : Float :=
  let sign := if negative then twoTo 63 else 0
  if mantissa = 0 then Float.ofBits (UInt64.ofNat sign)
  else
    let e := max (exponent + mantissa.log2 - 52) (-1074)
    let m := scale mantissa (exponent - e)
    let field := if m < twoTo 52 then 0 else (e + 1075).toNat
    Float.ofBits (UInt64.ofNat (sign + field * twoTo 52 + m % twoTo 52))

/-- Finite, and without a part below the point. -/
def isWhole (x : Float) : Bool :=
  match parts x with
  | .finite _ m e => 0 ≤ e || m % twoTo (-e).toNat == 0
  | _ => false

def isFinite (x : Float) : Bool :=
  match parts x with
  | .finite .. => true
  | _ => false

def isNaN (x : Float) : Bool := parts x = .nan

/-- The whole part of a finite double, rounded toward zero. -/
def truncate (x : Float) : Int :=
  match parts x with
  | .finite negative m e => if negative then -(scale m e) else scale m e
  | _ => 0

/-- The nearest 64-bit integer to a whole part that may lie outside of them. -/
def saturate (i : Int) : Int64 := Int64.ofInt (max Int64.minValue.toInt (min Int64.maxValue.toInt i))

/-- The remainder of the division that rounds toward zero. It is exact and has the sign of the
dividend, which it is itself when the divisor is infinite. -/
def remainder (x y : Float) : Float :=
  match parts x, parts y with
  | .finite negative m e, .finite _ n f =>
    let low := min e f
    let divisor := n <<< (f - low).toNat
    if divisor = 0 then 0.0 / 0.0
    else assemble negative ((m <<< (e - low).toNat) % divisor) low
  | .finite .., .infinite _ => x
  | _, _ => 0.0 / 0.0

end PipelineScript.Numeral
