import PipelineScript.Numeral.Integer
import PipelineScript.Numeral.Reading
import PipelineScript.Toml

/-! # Values without quotes

A number, a date or a truth value in a TOML document is a row of letters, digits and a few marks.
The whole row has to be a value; which one it is can be told from its form. -/

namespace PipelineScript.Toml

def isWordPart (c : Char) : Bool :=
  Text.isAsciiDigit c || Text.isAsciiLetter c || ['+', '-', '_', '.', ':'].contains c

/-- Digits without the underscores between them. -/
def ungroup? (isDigit : Char → Bool) : List Char → Option (List Char)
  | [] => none
  | [c] => if isDigit c then some [c] else none
  | c :: '_' :: rest => if isDigit c then (ungroup? isDigit rest).map (c :: ·) else none
  | c :: rest => if isDigit c then (ungroup? isDigit rest).map (c :: ·) else none

/-- Decimal digits that do not start with a zero, unless it is the only one. -/
def decimal? (cs : List Char) : Option (List Char) :=
  match ungroup? Text.isAsciiDigit cs with
  | some ('0' :: _ :: _) => none
  | digits? => digits?

def isBelow (base : Nat) (c : Char) : Bool := (Text.hexValue? c).any fun v => v < base

def based? (base : Nat) (cs : List Char) : Option Int :=
  (ungroup? (isBelow base) cs).map fun digits => (Numeral.valueOf base digits : Nat)

/-- A number may have a sign. -/
def splitSign : List Char → Bool × List Char
  | '-' :: rest => (true, rest)
  | '+' :: rest => (false, rest)
  | cs => (false, cs)

/-- Other bases than ten have no sign. -/
def integer? (cs : List Char) : Option Int :=
  let value? : Option Int :=
    match cs with
    | '0' :: 'x' :: digits => based? 16 digits
    | '0' :: 'o' :: digits => based? 8 digits
    | '0' :: 'b' :: digits => based? 2 digits
    | cs =>
      let (negative, digits) := splitSign cs
      (decimal? digits).map fun digits =>
        let n : Int := (Numeral.valueOf 10 digits : Nat)
        if negative then -n else n
  value?.filter Numeral.fits

/-- The exponent of a number, after its mark. -/
def exponent? (cs : List Char) : Option (List Char) :=
  let (negative, digits) := splitSign cs
  (ungroup? Text.isAsciiDigit digits).map fun digits =>
    'e' :: (if negative then '-' :: digits else digits)

def isExponentMark (c : Char) : Bool := c == 'e' || c == 'E'

/-- A number with a point or an exponent, as plain digits. -/
def plainFloat? (cs : List Char) : Option (List Char) :=
  let mantissa := cs.takeWhile fun c => !isExponentMark c
  let power := cs.drop mantissa.length
  let whole := mantissa.takeWhile (· != '.')
  let point := mantissa.drop whole.length
  if point = [] ∧ power = [] then none
  else
    match decimal? whole,
        (if point = [] then some [] else (ungroup? Text.isAsciiDigit (point.drop 1)).map ('.' :: ·)),
        (if power = [] then some [] else exponent? (power.drop 1)) with
    | some whole, some point, some power => some (whole ++ point ++ power)
    | _, _, _ => none

/-- A double; one that is too large to be a number is refused. -/
def float? (cs : List Char) : Option Float :=
  let (negative, unsigned) := splitSign cs
  let sign (x : Float) : Float := if negative then -x else x
  match String.ofList unsigned with
  | "inf" => some (sign (1.0 / 0.0))
  | "nan" => some (sign (0.0 / 0.0))
  | _ =>
    match plainFloat? unsigned >>= Numeral.readFloat? with
    | some x => if sign x == 1.0 / 0.0 then none else some (sign x)
    | none => none

/-! ## Dates and times -/

def digits? (cs : List Char) : Option Nat :=
  if cs.all Text.isAsciiDigit then some (Numeral.valueOf 10 cs) else none

def within? (low high : Nat) (cs : List Char) : Bool :=
  (digits? cs).any fun n => low ≤ n && n ≤ high

def daysOf (year month : Nat) : Nat :=
  if month = 2 then
    if (year % 4 = 0 ∧ year % 100 ≠ 0) ∨ year % 400 = 0 then 29 else 28
  else if [4, 6, 9, 11].contains month then 30
  else 31

def isDate : List Char → Bool
  | [a, b, c, d, '-', e, f, '-', g, h] =>
    match digits? [a, b, c, d], digits? [e, f] with
    | some year, some month => 1 ≤ month && month ≤ 12 && within? 1 (daysOf year month) [g, h]
    | _, _ => false
  | _ => false

def isTime : List Char → Bool
  | a :: b :: ':' :: c :: d :: ':' :: e :: f :: rest =>
    within? 0 23 [a, b] && within? 0 59 [c, d] && within? 0 60 [e, f] &&
      match rest with
      | [] => true
      | '.' :: fraction => fraction ≠ [] && fraction.all Text.isAsciiDigit
      | _ => false
  | _ => false

def isOffset : List Char → Bool
  | [] => true
  | ['Z'] | ['z'] => true
  | [sign, a, b, ':', c, d] =>
    (sign == '+' || sign == '-') && within? 0 23 [a, b] && within? 0 59 [c, d]
  | _ => false

/-- A time of day, perhaps with the offset of its zone. -/
def isZonedTime (cs : List Char) : Bool :=
  let time := cs.takeWhile fun c => !(['Z', 'z', '+', '-'].contains c)
  isTime time && isOffset (cs.drop time.length)

def isDateTime (cs : List Char) : Bool :=
  let date := cs.take 10
  isDate date &&
    match cs.drop 10 with
    | [] => true
    | mark :: time => (mark == 'T' || mark == 't') && isZonedTime time

/-- The value that a row of characters is. -/
def word? (cs : List Char) : Option Toml :=
  match String.ofList cs with
  | "true" => some (.bool true)
  | "false" => some (.bool false)
  | _ =>
    if isDateTime cs || isTime cs then some .date
    else
      match integer? cs with
      | some i => some (.int i)
      | none => (float? cs).map .float

end PipelineScript.Toml
