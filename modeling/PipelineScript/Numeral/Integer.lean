import PipelineScript.Text.CharClass

/-! # Integers

The integers of the language are the 64-bit ones. Arithmetic is done without bound and checked
once, when the result is stored; digits are read the same way. -/

namespace PipelineScript.Numeral

def fits (i : Int) : Bool := Int64.minValue.toInt ≤ i && i ≤ Int64.maxValue.toInt

/-- The 64-bit integer of that value, if there is one. -/
def toInt64? (i : Int) : Option Int64 := if fits i then some (Int64.ofInt i) else none

theorem toInt_of_toInt64? {i : Int} {w : Int64} (h : toInt64? i = some w) : w.toInt = i := by
  unfold toInt64? at h
  split at h
  · rename_i hf
    simp only [fits, Bool.and_eq_true, decide_eq_true_eq] at hf
    cases h
    exact Int64.toInt_ofInt_of_le hf.1 (Int.lt_of_le_of_lt hf.2 (by decide))
  · cases h

theorem toInt64?_eq_none_iff {i : Int} :
    toInt64? i = none ↔ ¬ (Int64.minValue.toInt ≤ i ∧ i ≤ Int64.maxValue.toInt) := by
  simp [toInt64?, fits]

theorem toInt64?_toInt (w : Int64) : toInt64? w.toInt = some w := by
  have h : fits w.toInt = true := by
    simpa [fits] using ⟨Int64.le_toInt w, Int64.toInt_le w⟩
  simp [toInt64?, h]

def digitValue (c : Char) : Nat := c.toNat - '0'.toNat

/-- The number that a row of digits stands for; a character that is no digit counts as zero. -/
def valueOf (base : Nat) (digits : List Char) : Nat :=
  digits.foldl (fun n c => base * n + (Text.hexValue? c).getD 0) 0

/-- Decimal digits after an optional sign, within 64 bits. -/
def readInt64? (cs : List Char) : Option Int64 :=
  let digits? : List Char → Option Nat := fun ds =>
    if ds ≠ [] ∧ ds.all Text.isAsciiDigit then some (valueOf 10 ds) else none
  match cs with
  | '-' :: ds => digits? ds |>.bind fun n => toInt64? (-n)
  | '+' :: ds => digits? ds |>.bind fun n => toInt64? n
  | ds => digits? ds |>.bind fun n => toInt64? n

end PipelineScript.Numeral
