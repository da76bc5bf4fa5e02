import PipelineScript.Token.Balance
import PipelineScript.Token.Literal

/-! # Plain characters

Characters that mean the same to the scanner and to the walk over brackets wherever they stand in
code: they are no blanks, open or close nothing, and begin neither a string nor a comment. Names,
numbers and all operators but the slash consist of them. -/

namespace PipelineScript

open Text

namespace Text

/-- The code points of white space. -/
def blankPoints : List Nat :=
  [9, 10, 11, 12, 13, 32, 0x85, 0xa0, 0x1680, 0x2000, 0x2001, 0x2002, 0x2003, 0x2004, 0x2005,
    0x2006, 0x2007, 0x2008, 0x2009, 0x200a, 0x2028, 0x2029, 0x202f, 0x205f, 0x3000]

theorem mem_blankPoints {c : Char} (h : isBlank c = true) : c.toNat ∈ blankPoints := by
  simp only [isBlank, Bool.or_eq_true, Bool.and_eq_true, beq_iff_eq, decide_eq_true_eq,
    Char.le_def, UInt32.le_iff_toNat_le, Char.ext_iff, ← UInt32.toNat_inj, Char.reduceVal,
    UInt32.reduceToNat] at h
  show c.val.toNat ∈ blankPoints
  simp only [blankPoints, List.mem_cons]
  omega

/-- No letter and no digit is white space. -/
theorem isAlphanumeric_eq_false_of_isBlank {c : Char} (h : isBlank c = true) :
    isAlphanumeric c = false := by
  have hall : ∀ n ∈ blankPoints, isAlphanumeric (Char.ofNat n) = false := by decide +kernel
  have := hall c.toNat (mem_blankPoints h)
  rwa [Char.ofNat_toNat] at this

theorem isAlphanumeric_of_isAsciiLetter {c : Char} (h : isAsciiLetter c = true) :
    isAlphanumeric c = true := by
  have hc : c.toNat < 128 := by
    simp only [isAsciiLetter, Bool.or_eq_true, Bool.and_eq_true, decide_eq_true_eq, Char.le_def,
      UInt32.le_iff_toNat_le, Char.reduceVal, UInt32.reduceToNat] at h
    show c.val.toNat < 128
    omega
  simp [isAlphanumeric, hc, h]

theorem isAlphanumeric_of_isHexDigit {c : Char} (h : isHexDigit c = true) :
    isAlphanumeric c = true := by
  by_cases hd : isAsciiDigit c = true
  · exact isAlphanumeric_of_isAsciiDigit hd
  · refine isAlphanumeric_of_isAsciiLetter ?_
    simp only [isHexDigit, hexValue?, isAsciiDigit] at h hd
    simp only [hd, Bool.false_eq_true, if_false] at h
    simp only [isAsciiLetter, Bool.or_eq_true, Bool.and_eq_true, decide_eq_true_eq, Char.le_def,
      UInt32.le_iff_toNat_le, Char.reduceVal, UInt32.reduceToNat]
    split at h
    · rename_i hc
      simp only [Bool.and_eq_true, decide_eq_true_eq, Char.le_def, UInt32.le_iff_toNat_le,
        Char.reduceVal, UInt32.reduceToNat] at hc
      omega
    · split at h
      · rename_i hc
        simp only [Bool.and_eq_true, decide_eq_true_eq, Char.le_def, UInt32.le_iff_toNat_le,
          Char.reduceVal, UInt32.reduceToNat] at hc
        omega
      · cases h

end Text

/-- Neither a blank nor a character that the walk over brackets looks at. -/
def isPlain (c : Char) : Bool :=
  !isBlank c && c != '"' && c != '/' && (Bracket.opened? c).isNone && (Bracket.closed? c).isNone

theorem isPlain_of_isAlphanumeric {c : Char} (h : isAlphanumeric c = true) : isPlain c = true := by
  have hb : isBlank c = false := by
    cases hb : isBlank c
    · rfl
    · rw [isAlphanumeric_eq_false_of_isBlank hb] at h; cases h
  have hne (d : Char) (hd : isAlphanumeric d = false) : c ≠ d := by
    rintro rfl; rw [h] at hd; cases hd
  have h1 := hne '(' (by decide)
  have h2 := hne '[' (by decide)
  have h3 := hne '{' (by decide)
  have h4 := hne ')' (by decide)
  have h5 := hne ']' (by decide)
  have h6 := hne '}' (by decide)
  simp [isPlain, hb, hne '"' (by decide), hne '/' (by decide), Bracket.opened?, Bracket.closed?,
    Bracket.opening, Bracket.closing, h1.symm, h2.symm, h3.symm, h4.symm, h5.symm, h6.symm]

theorem isPlain_of_isWordPart {c : Char} (h : Literal.isWordPart c = true) : isPlain c = true := by
  obtain h | h := Bool.or_eq_true_iff.mp h
  · exact isPlain_of_isAlphanumeric h
  · obtain rfl := beq_iff_eq.mp h; decide

theorem isPlain_of_isAsciiDigit {c : Char} (h : isAsciiDigit c = true) : isPlain c = true :=
  isPlain_of_isAlphanumeric (isAlphanumeric_of_isAsciiDigit h)

theorem isPlain_of_isDigitPart {c : Char} (h : Literal.isDigitPart c = true) :
    isPlain c = true := by
  obtain h | h := Bool.or_eq_true_iff.mp h
  · exact isPlain_of_isAsciiDigit h
  · obtain rfl := beq_iff_eq.mp h; decide

theorem isPlain_of_isHexPart {c : Char} (h : Literal.isHexPart c = true) : isPlain c = true := by
  obtain h | h := Bool.or_eq_true_iff.mp h
  · exact isPlain_of_isAlphanumeric (isAlphanumeric_of_isHexDigit h)
  · obtain rfl := beq_iff_eq.mp h; decide

end PipelineScript
