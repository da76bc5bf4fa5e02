import PipelineScript.Numeral.Decimal
import PipelineScript.Text.Slice

/-! # Instants

A moment in universal time with nanoseconds, and its text in the form of RFC 3339. Years outside
of 0 to 9999 have a sign. -/

namespace PipelineScript

structure Instant where
  /-- Seconds since the beginning of 1970, negative before. -/
  seconds : Int
  /-- Below one thousand million. -/
  nanos : Nat
deriving DecidableEq, Repr

/-- The day `day` days after the beginning of 1970, as year, month and day of the month. Years are
counted from the first of March, so that the leap day ends one; 400 of them have 146097 days. -/
def civil (day : Int) : Int × Nat × Nat :=
  let shifted := day + 719468
  let era := shifted.fdiv 146097
  let dayOfEra := (shifted - era * 146097).toNat
  let yearOfEra := (dayOfEra - dayOfEra / 1460 + dayOfEra / 36524 - dayOfEra / 146096) / 365
  let dayOfYear := dayOfEra - (365 * yearOfEra + yearOfEra / 4 - yearOfEra / 100)
  let shiftedMonth := (5 * dayOfYear + 2) / 153
  let dayOfMonth := dayOfYear - (153 * shiftedMonth + 2) / 5 + 1
  let month := if shiftedMonth < 10 then shiftedMonth + 3 else shiftedMonth - 9
  let year := era * 400 + yearOfEra + (if month ≤ 2 then 1 else 0)
  (year, month, dayOfMonth)

namespace Instant

def digits (places n : Nat) : String :=
  let ds := Nat.toDigits 10 n
  String.ofList (Numeral.zeros (places - ds.length) ++ ds)

def yearText (year : Int) : String :=
  if 0 ≤ year && year ≤ 9999 then digits 4 year.toNat
  else (if year < 0 then "-" else "+") ++ digits 4 year.natAbs

/-- No fraction, or as many of 3, 6 and 9 places as it takes. -/
def fractionText (nanos : Nat) : String :=
  if nanos = 0 then ""
  else if nanos % 1000000 = 0 then "." ++ digits 3 (nanos / 1000000)
  else if nanos % 1000 = 0 then "." ++ digits 6 (nanos / 1000)
  else "." ++ digits 9 nanos

/-- Date and time of day, before the name of the zone. -/
def localText (i : Instant) : String :=
  let (year, month, day) := civil (i.seconds.fdiv 86400)
  let second := (i.seconds.fmod 86400).toNat
  yearText year ++ "-" ++ digits 2 month ++ "-" ++ digits 2 day ++ "T" ++ digits 2 (second / 3600) ++
    ":" ++ digits 2 (second / 60 % 60) ++ ":" ++ digits 2 (second % 60) ++ fractionText i.nanos

/-- The zone as an offset. -/
def text (i : Instant) : String := i.localText ++ "+00:00"

/-- The zone as a letter. -/
def zuluText (i : Instant) : String := i.localText ++ "Z"

def compare (a b : Instant) : Ordering :=
  (Ord.compare a.seconds b.seconds).then (Ord.compare a.nanos b.nanos)

/-- A number of nanoseconds later. -/
def after (i : Instant) (nanos : Nat) : Instant :=
  let total := i.nanos + nanos
  ⟨i.seconds + (total / 1000000000 : Nat), total % 1000000000⟩

end Instant

end PipelineScript
