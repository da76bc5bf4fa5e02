import Mathlib
import PipelineScript.Proofs.Evaluation.Trees
import PipelineScript.Proofs.Guarded.Numbers
import PipelineScript.Proofs.Json.Text
import PipelineScript.Proofs.Token.Strings

/-! # Integer literals

An integer is written with decimal digits, or with hexadecimal ones after a mark, with underscores
among them. Main statement: `Token.ofSource_integerLiteral`. The text of a literal is one token, its
value, or it has no tokens because 64 bits cannot hold the value. The digits are taken up from the
left, so the induction goes along the text from its end (`Denotes`). -/

namespace PipelineScript

open Text

namespace Literal

/-! ## Digits and their numbers -/

/-- The character is the decimal digit of that value. -/
def IsDigit (c : Char) (value : Nat) : Prop := "0123456789".toList[value]? = some c

/-- The number that digits of a base stand for. Underscores among them count for nothing. -/
inductive Denotes (digit : Char → Nat → Prop) (base : Nat) : List Char → Nat → Prop
  | nil : Denotes digit base [] 0
  | digit {cs : List Char} {c : Char} {n v : Nat} :
      Denotes digit base cs n → digit c v → Denotes digit base (cs ++ [c]) (base * n + v)
  | underscore {cs : List Char} {n : Nat} :
      Denotes digit base cs n → Denotes digit base (cs ++ ['_']) n

/-- The literal of an integer without a suffix, and its value. -/
inductive IntegerLiteral : List Char → Nat → Prop
  | decimal {c : Char} {cs : List Char} {first n : Nat} :
      IsDigit c first → Denotes IsDigit 10 (c :: cs) n → IntegerLiteral (c :: cs) n
  | hex {x c : Char} {cs : List Char} {n : Nat} :
      x = 'x' ∨ x = 'X' → c ∈ cs → c ≠ '_' → Denotes IsHexDigit 16 cs n →
      IntegerLiteral ('0' :: x :: cs) n

/-- A letter may say that the literal is an integer. -/
def IsLongSuffix (suffix : List Char) : Prop := suffix = [] ∨ suffix = ['L'] ∨ suffix = ['l']

/-- What holds of the ten digits one by one. -/
theorem IsDigit.all {c : Char} {value : Nat} (h : IsDigit c value) {p : Char → Prop}
    (hp : ∀ d ∈ ['0', '1', '2', '3', '4', '5', '6', '7', '8', '9'], p d) : p c :=
  hp c (by simpa using List.mem_of_getElem? h)

theorem isHexDigit_of_isDigit {c : Char} {value : Nat} (h : IsDigit c value) :
    IsHexDigit c value := by
  have hlt : value < 10 := (List.getElem?_eq_some_iff.mp h).1
  refine .inl ?_
  unfold IsDigit at h
  interval_cases value <;> exact h

theorem Denotes.mono {digit digit' : Char → Nat → Prop} {base : Nat} {cs : List Char} {n : Nat}
    (hmono : ∀ c value, digit c value → digit' c value) (h : Denotes digit base cs n) :
    Denotes digit' base cs n := by
  induction h with
  | nil => exact .nil
  | digit _ hc ih => exact .digit ih (hmono _ _ hc)
  | underscore _ ih => exact .underscore ih

/-- Digits stand for the number that is read from them. -/
theorem Denotes.valueOf_eq {base : Nat} {cs : List Char} {n : Nat}
    (h : Denotes IsHexDigit base cs n) : Numeral.valueOf base (withoutSeparators cs) = n := by
  induction h with
  | nil => rfl
  | @digit cs c n value _ hc ih =>
    have hvalue := hexValue?_of_isHexDigit hc
    have hkeep : c ≠ '_' := by
      rintro rfl
      cases hvalue
    rw [withoutSeparators, List.filter_append, ← withoutSeparators, Numeral.valueOf,
      List.foldl_append, ← Numeral.valueOf, ih, List.filter_cons_of_pos (by simpa using hkeep)]
    simp [hvalue]
  | underscore _ ih =>
    rw [withoutSeparators, List.filter_append, ← withoutSeparators]
    simpa using ih

theorem Denotes.isHexPart {base : Nat} {cs : List Char} {n : Nat}
    (h : Denotes IsHexDigit base cs n) : ∀ c ∈ cs, isHexPart c = true := by
  induction h with
  | nil => exact List.forall_mem_nil _
  | digit _ hc ih =>
    refine List.forall_mem_append.mpr ⟨ih, List.forall_mem_singleton.mpr ?_⟩
    simp [Literal.isHexPart, isHexDigit, hexValue?_of_isHexDigit hc]
  | underscore _ ih =>
    exact List.forall_mem_append.mpr ⟨ih, List.forall_mem_singleton.mpr (by decide)⟩

theorem Denotes.isDigitPart {base : Nat} {cs : List Char} {n : Nat}
    (h : Denotes IsDigit base cs n) : ∀ c ∈ cs, isDigitPart c = true := by
  induction h with
  | nil => exact List.forall_mem_nil _
  | digit _ hc ih =>
    exact List.forall_mem_append.mpr
      ⟨ih, List.forall_mem_singleton.mpr (hc.all (p := (Literal.isDigitPart · = true))
        (List.all_eq_true.mp rfl))⟩
  | underscore _ ih =>
    exact List.forall_mem_append.mpr ⟨ih, List.forall_mem_singleton.mpr (by decide)⟩

/-! ## Reading a literal -/

/-- A stretch that is all of one kind is taken as a whole before anything else. -/
theorem takeWhile_all {p : Char → Bool} {cs suffix : List Char} (hcs : ∀ c ∈ cs, p c = true)
    (hsuffix : ∀ c ∈ suffix, p c = false) : (cs ++ suffix).takeWhile p = cs := by
  rw [List.takeWhile_append_of_pos hcs]
  cases suffix with
  | nil => simp
  | cons s more => simp [hsuffix s]

theorem IsLongSuffix.all {suffix : List Char} (h : IsLongSuffix suffix) {p : Char → Prop}
    (hp : p 'L' ∧ p 'l') : ∀ c ∈ suffix, p c := by
  obtain rfl | rfl | rfl := h
  · exact List.forall_mem_nil _
  · exact List.forall_mem_singleton.mpr hp.1
  · exact List.forall_mem_singleton.mpr hp.2

theorem readDecimal_literal {cs suffix : List Char} {n : Nat} (h : Denotes IsDigit 10 cs n)
    (hsuffix : IsLongSuffix suffix) :
    ∃ cause, cause.category = .token ∧ readDecimal (cs ++ suffix) =
      (integer n cause).map (⟨·, (cs ++ suffix).length - 1⟩) := by
  have hwhole : (cs ++ suffix).takeWhile isDigitPart = cs :=
    takeWhile_all h.isDigitPart (hsuffix.all (by decide))
  have hmantissa : Mantissa.ofChars (cs ++ suffix) = ⟨cs, [], []⟩ := by
    rw [Mantissa.ofChars, hwhole]
    obtain rfl | rfl | rfl := hsuffix <;> simp [fraction, exponent]
  have hdigits : (⟨cs, [], []⟩ : Mantissa).digits = withoutSeparators cs := by
    simp [Mantissa.digits, withoutSeparators, normalExponent]
  have hvalue := (h.mono fun _ _ => isHexDigit_of_isDigit).valueOf_eq
  refine ⟨.integerRange (String.ofList (cs ++ suffix)), rfl, ?_⟩
  rw [readDecimal, hmantissa]
  obtain rfl | rfl | rfl := hsuffix <;>
    simp [Mantissa.written, Mantissa.finish, Mantissa.isPlain, Mantissa.int, hdigits, hvalue,
      ended, trailing]

theorem readHex_literal {x c : Char} {cs suffix : List Char} {n : Nat}
    (hc : c ∈ cs) (hdigit : c ≠ '_') (h : Denotes IsHexDigit 16 cs n)
    (hsuffix : IsLongSuffix suffix) :
    ∃ cause, cause.category = .token ∧ readHex ['0', x] (cs ++ suffix) =
      (integer n cause).map (⟨·, (x :: (cs ++ suffix)).length⟩) := by
  have hrun : (cs ++ suffix).takeWhile isHexPart = cs :=
    takeWhile_all h.isHexPart (hsuffix.all (by decide))
  have hrest : (cs ++ suffix).dropWhile isHexPart = suffix := by
    have hall := List.takeWhile_append_dropWhile (p := isHexPart) (l := cs ++ suffix)
    rw [hrun] at hall
    exact List.append_cancel_left hall
  have hne : withoutSeparators cs ≠ [] :=
    List.ne_nil_of_mem (List.mem_filter.mpr ⟨hc, by simpa using hdigit⟩)
  refine ⟨.hexLiteral (String.ofList (['0', x] ++ cs ++ suffix)), rfl, ?_⟩
  rw [readHex, hrun, hrest]
  obtain rfl | rfl | rfl := hsuffix <;> simp [hne, h.valueOf_eq, ended, trailing]

/-- A literal is read to its end, and its value has to be one of 64 bits. -/
theorem readNumber_literal {written suffix : List Char} {n : Nat} (h : IntegerLiteral written n)
    (hsuffix : IsLongSuffix suffix) :
    ∃ c rest first cause, written ++ suffix = c :: rest ∧ IsDigit c first ∧
      cause.category = .token ∧
      readNumber c rest = (integer n cause).map (⟨·, rest.length⟩) := by
  cases h with
  | @decimal c cs first n hc h =>
    obtain ⟨cause, hcause, hread⟩ := readDecimal_literal h hsuffix
    refine ⟨c, cs ++ suffix, first, cause, rfl, hc, hcause, ?_⟩
    -- no digit and no suffix is the mark of a hexadecimal literal
    have hmark : ∀ d ∈ cs ++ suffix, ¬ (d = 'x' ∨ d = 'X') := by
      refine List.forall_mem_append.mpr ⟨fun d hd => ?_, hsuffix.all (by decide)⟩
      have hpart := h.isDigitPart d (List.mem_cons_of_mem c hd)
      rintro (rfl | rfl) <;> cases hpart
    rw [List.cons_append] at hread
    generalize cs ++ suffix = rest at hread hmark
    unfold readNumber
    cases rest with
    | nil => exact hread
    | cons x body =>
      dsimp only
      rw [if_neg fun hx => hmark x List.mem_cons_self hx.2]
      exact hread
  | @hex x c cs n hx hc hdigit h =>
    obtain ⟨cause, hcause, hread⟩ := readHex_literal (x := x) hc hdigit h hsuffix
    refine ⟨'0', x :: (cs ++ suffix), 0, cause, rfl, rfl, hcause, ?_⟩
    rw [readNumber, if_pos ⟨rfl, hx⟩, hread]

theorem isPlain_of_literal {written suffix : List Char} {n : Nat} (h : IntegerLiteral written n)
    (hsuffix : IsLongSuffix suffix) : ∀ c ∈ written ++ suffix, isPlain c = true := by
  refine List.forall_mem_append.mpr ⟨?_, hsuffix.all (by decide)⟩
  cases h with
  | decimal _ h => exact fun c hc => isPlain_of_isDigitPart (h.isDigitPart c hc)
  | hex hx _ _ h =>
    refine List.forall_mem_cons.mpr ⟨by decide, List.forall_mem_cons.mpr ⟨?_, fun c hc => ?_⟩⟩
    · obtain rfl | rfl := hx <;> decide
    · exact isPlain_of_isHexPart (h.isHexPart c hc)

end Literal

namespace Numeral

open Literal

/-- The integers of 64 bits that are not negative. -/
theorem toInt64?_natCast {n : Nat} (h : n ≤ 2 ^ 63 - 1) :
    ∃ w, toInt64? n = some w ∧ w.toInt = n := by
  cases hw : toInt64? n with
  | some w => exact ⟨w, rfl, toInt_of_toInt64? hw⟩
  | none =>
    refine absurd ⟨?_, ?_⟩ (toInt64?_eq_none_iff.mp hw)
    · exact (show Int64.minValue.toInt ≤ 0 by decide).trans (Int.natCast_nonneg n)
    · exact (Int.ofNat_le.mpr h).trans (by decide)

theorem toInt64?_natCast_eq_none {n : Nat} (h : 2 ^ 63 - 1 < n) : toInt64? n = none := by
  refine toInt64?_eq_none_iff.mpr fun hn => ?_
  have hmax : Int64.maxValue.toInt = ((2 ^ 63 - 1 : Nat) : Int) := by decide
  rw [hmax] at hn
  omega

theorem valueOf_toDigits (n : Nat) : valueOf 10 (Nat.toDigits 10 n) = n := by
  have hstep : ∀ ds : List Char, (∀ c ∈ ds, isAsciiDigit c = true) → ∀ m,
      ds.foldl (fun n c => 10 * n + (hexValue? c).getD 0) m = Nat.ofDigitChars 10 ds m := by
    intro ds hds
    induction ds with
    | nil => exact fun m => rfl
    | cons c ds ih =>
      obtain ⟨hc, hds⟩ := List.forall_mem_cons.mp hds
      intro m
      have hvalue : hexValue? c = some (c.toNat - '0'.toNat) := if_pos hc
      rw [List.foldl_cons, hvalue, ih hds]
      rfl
  rw [valueOf, hstep _ fun c => Json.isAsciiDigit_toDigits, Nat.ofDigitChars_ten_toDigits]

/-- An integer is read again from its numeral. -/
theorem readInt64?_toString (w : Int64) : readInt64? (toString w.toInt).toList = some w := by
  have hdigits (n : Nat) : ∃ c cs, Nat.toDigits 10 n = c :: cs ∧ isAsciiDigit c = true ∧
      ∀ d ∈ cs, isAsciiDigit d = true := by
    obtain ⟨c, cs, h⟩ := List.exists_cons_of_ne_nil (Nat.toDigits_ne_nil (b := 10) (n := n))
    have hall := fun d => Json.isAsciiDigit_toDigits (n := n) (c := d)
    rw [h] at hall
    exact ⟨c, cs, h, List.forall_mem_cons.mp hall⟩
  rw [← toInt64?_toInt w]
  cases w.toInt with
  | ofNat n =>
    obtain ⟨c, cs, h, hc, hcs⟩ := hdigits n
    rw [Json.toList_ofNat, h, readInt64?_of_digit hc hcs, ← h, valueOf_toDigits]
    rfl
  | negSucc n =>
    obtain ⟨c, cs, h, hc, hcs⟩ := hdigits (n + 1)
    have hall : Nat.toDigits 10 (n + 1) ≠ [] ∧ (Nat.toDigits 10 (n + 1)).all isAsciiDigit = true :=
      ⟨Nat.toDigits_ne_nil, List.all_eq_true.mpr fun d => Json.isAsciiDigit_toDigits⟩
    rw [Json.toList_negSucc, readInt64?]
    dsimp only
    rw [if_pos hall, valueOf_toDigits, Option.bind_some]
    exact congrArg toInt64? (by omega : -((n + 1 : Nat) : Int) = Int.negSucc n)

end Numeral

namespace Token

open Literal

theorem read_digit {c : Char} {first : Nat} (hc : IsDigit c first) (rest : List Char) :
    isSpace c = false ∧
      Lexeme.read c rest = (readNumber c rest).mapError fun cause => (0, cause) :=
  hc.all (p := fun c => isSpace c = false ∧
    Lexeme.read c rest = (readNumber c rest).mapError fun cause => (0, cause)) (by
      simp only [List.forall_mem_cons]
      exact ⟨⟨rfl, rfl⟩, ⟨rfl, rfl⟩, ⟨rfl, rfl⟩, ⟨rfl, rfl⟩, ⟨rfl, rfl⟩, ⟨rfl, rfl⟩, ⟨rfl, rfl⟩,
        ⟨rfl, rfl⟩, ⟨rfl, rfl⟩, ⟨rfl, rfl⟩, List.forall_mem_nil _⟩)

/-- Nothing in a text of plain characters has to be balanced. -/
theorem check_of_isPlain {cs : List Char} (h : ∀ c ∈ cs, isPlain c = true) :
    Balance.check cs = .ok () := by
  obtain ⟨s, hs, hmode, hbrackets⟩ := Balance.foldlM_steady
    (fun c hc _ => Balance.step_of_isPlain (h c hc)) (s := Balance.start) rfl
  rw [Balance.check, hs]
  exact (Balance.finish_eq_ok_iff (.inl hmode)).mpr hbrackets

/-- A number that cannot be read leaves a text without tokens. -/
theorem ofSource_of_fault {c : Char} {rest : List Char} {cause : LexicalCause}
    (hplain : ∀ d ∈ c :: rest, isPlain d = true) (hspace : isSpace c = false)
    (hread : Lexeme.read c rest = .error (0, cause)) :
    ofSource (String.ofList (c :: rest)) =
      .error (LexicalFault.diagnose ⟨1, cause⟩ (c :: rest)) := by
  rw [ofSource, String.toList_ofList, ofChars, check_of_isPlain hplain]
  show (scan 1 0 (c :: rest)).mapError _ = _
  rw [scan, if_neg (Bool.eq_false_iff.mp hspace), hread]
  rfl

/-- A text that is an integer by itself has this value. -/
theorem evaluate_int {source : String} {w : Int64} {line start stop : Nat}
    (h : ofSource source = .ok [⟨.int w, line, start, stop⟩]) {memo : Memo} (hmemo : memo.Sound)
    (vars : String → Option Value) : (memo.evaluate source vars).1 = .ok (.int w) := by
  have htokens : ofChars source.toList = .ok [⟨.int w, line, start, stop⟩] :=
    Lexeme.ok_of_mapError h
  have htree : Expression.ofSource source = .ok (.literal (.int w)) := by
    rw [Expression.ofSource, htokens]
    rfl
  rw [hmemo.evaluate_eq, htree]
  rfl

/-- A literal of an integer is one token with its value, and the value of the expression that it
is, if 64 bits hold it; otherwise the text has no tokens. The text of an integer among the tokens of
any source is read again as this integer. -/
theorem ofSource_integerLiteral {written suffix : List Char} {n : Nat}
    (h : IntegerLiteral written n) (hsuffix : IsLongSuffix suffix) :
    let source := String.ofList (written ++ suffix)
    (n ≤ 2 ^ 63 - 1 → ∃ w : Int64, w.toInt = n ∧
      ofSource source = .ok [⟨.int w, 1, 0, source.utf8ByteSize⟩] ∧
      (Lexeme.int w).text = toString n ∧
      ∀ memo vars, Memo.Sound memo → (memo.evaluate source vars).1 = .ok (.int w)) ∧
    (2 ^ 63 - 1 < n → ∃ d, ofSource source = .error d ∧ d.category = .token) ∧
    ∀ other tokens, ofSource other = .ok tokens → ∀ t ∈ tokens, ∀ w, t.lexeme = .int w →
      Numeral.readInt64? t.lexeme.text.toList = some w := by
  intro source
  obtain ⟨c, rest, first, cause, hsource, hc, hcause, hnumber⟩ := readNumber_literal h hsuffix
  obtain ⟨hspace, hread⟩ := read_digit hc rest
  have hplain := isPlain_of_literal h hsuffix
  rw [hsource] at hplain
  rw [hnumber, integer] at hread
  refine ⟨fun hn => ?_, fun hn => ?_, fun other tokens _ t _ w hw => ?_⟩
  · obtain ⟨w, hw, hvalue⟩ := Numeral.toInt64?_natCast hn
    rw [hw] at hread
    have htokens : ofSource source = .ok [⟨.int w, 1, 0, source.utf8ByteSize⟩] := by
      rw [show source = String.ofList (c :: rest) from congrArg String.ofList hsource]
      exact ofSource_of_read hspace hread rfl
    refine ⟨w, hvalue, htokens, ?_, fun memo vars hmemo => evaluate_int htokens hmemo vars⟩
    rw [Lexeme.text, hvalue]
    rfl
  · rw [Numeral.toInt64?_natCast_eq_none hn] at hread
    rw [show source = String.ofList (c :: rest) from congrArg String.ofList hsource]
    exact ⟨_, ofSource_of_fault hplain hspace hread, hcause⟩
  · rw [hw]
    exact Numeral.readInt64?_toString w

/-- The largest integer, in groups of four digits and with a suffix, and one digit more. -/
theorem ofSource_integerLiteral_largest :
    (IntegerLiteral "0x7FFF_FFFF_FFFF_FFFF".toList (2 ^ 63 - 1) ∧ IsLongSuffix ['l'] ∧
      ∃ w : Int64, w.toInt = (2 ^ 63 - 1 : Nat) ∧
        ofSource "0x7FFF_FFFF_FFFF_FFFFl" = .ok [⟨.int w, 1, 0, 22⟩]) ∧
    IntegerLiteral "0x7FFF_FFFF_FFFF_FFFF0".toList (16 * (2 ^ 63 - 1)) ∧ IsLongSuffix [] ∧
      ∃ d, ofSource "0x7FFF_FFFF_FFFF_FFFF0" = .error d ∧ d.category = .token := by
  have group {cs : List Char} {n : Nat} (h : Denotes IsHexDigit 16 cs n) :
      Denotes IsHexDigit 16 (cs ++ ['_'] ++ ['F'] ++ ['F'] ++ ['F'] ++ ['F'])
        (16 * (16 * (16 * (16 * n + 15) + 15) + 15) + 15) :=
    (((h.underscore.digit (.inr rfl)).digit (.inr rfl)).digit (.inr rfl)).digit (.inr rfl)
  have first : Denotes IsHexDigit 16 ("7FFF".toList) 0x7FFF :=
    (((Denotes.nil.digit (v := 7) (.inl rfl)).digit (v := 15) (.inr rfl)).digit
      (v := 15) (.inr rfl)).digit (v := 15) (.inr rfl)
  have hlargest := group (group (group first))
  have hhex : IntegerLiteral "0x7FFF_FFFF_FFFF_FFFF".toList (2 ^ 63 - 1) :=
    .hex (.inl rfl) List.mem_cons_self (by decide) hlargest
  have hmore : IntegerLiteral "0x7FFF_FFFF_FFFF_FFFF0".toList (16 * (2 ^ 63 - 1)) :=
    .hex (.inl rfl) List.mem_cons_self (by decide) (hlargest.digit (c := '0') (v := 0) (.inl rfl))
  obtain ⟨w, hw, htokens, -⟩ := (ofSource_integerLiteral hhex (.inr (.inr rfl))).1 (Nat.le_refl _)
  exact ⟨⟨hhex, .inr (.inr rfl), w, hw, htokens⟩, hmore, .inl rfl,
    (ofSource_integerLiteral hmore (.inl rfl)).2.1 (by decide)⟩

end Token

end PipelineScript
