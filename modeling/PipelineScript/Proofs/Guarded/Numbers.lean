import Mathlib
import PipelineScript.Proofs.Guarded.Scanning

/-! # Scanning numbers

The digits that a scanner writes down while it passes a number are a number: reading them as one
never fails, but for integers out of range. -/

namespace PipelineScript

open Text Literal

/-! ## Digits are numbers -/

namespace Literal

theorem isAsciiDigit_of_mem_digits {cs : List Char} :
    ∀ c ∈ withoutSeparators (cs.takeWhile isDigitPart), isAsciiDigit c = true := by
  intro c hc
  obtain ⟨hmem, hsep⟩ := List.mem_filter.mp hc
  obtain h | h := Bool.or_eq_true_iff.mp (of_mem_takeWhile hmem)
  · exact h
  · rw [beq_iff_eq.mp h] at hsep
    cases hsep

theorem ne_of_passes {p : Char → Bool} {c d : Char} (hc : p c = true) (hd : p d = false) : c ≠ d :=
  ne_of_apply_ne p (by rw [hc, hd]; exact Bool.true_eq_false.mp)

theorem withoutSeparators_cons_of_ne {c : Char} (h : c ≠ '_') (cs : List Char) :
    withoutSeparators (c :: cs) = c :: withoutSeparators cs :=
  List.filter_cons_of_pos (by simpa using h)

/-- Digits begin with their first one. -/
theorem digits_cons {d : Char} (hd : isAsciiDigit d = true) (cs : List Char) :
    withoutSeparators ((d :: cs).takeWhile isDigitPart) =
      d :: withoutSeparators (cs.takeWhile isDigitPart) := by
  rw [List.takeWhile_cons_of_pos (isDigitPart_of_isAsciiDigit hd),
    withoutSeparators_cons_of_ne (ne_of_passes hd (by decide))]

/-- A fraction is a point and digits. -/
theorem fraction_eq (cs : List Char) :
    ¬ (cs.head? = some '.' ∧ cs[1]?.any isAsciiDigit = true) ∧ fraction cs = [] ∨
      ∃ d rest, isAsciiDigit d = true ∧ cs = '.' :: d :: rest ∧
        fraction cs = '.' :: (d :: rest).takeWhile isDigitPart := by
  match cs with
  | [] => exact .inl ⟨by simp, rfl⟩
  | [c] => exact .inl ⟨by simp, fraction_singleton c⟩
  | c :: d :: rest =>
    rw [fraction_cons_cons]
    split
    · rename_i h
      exact .inr ⟨d, rest, h.2, by rw [h.1], rfl⟩
    · rename_i h
      exact .inl ⟨by simpa using h, rfl⟩

/-- A sign before digits, or none. -/
def IsSign (sign : List Char) : Prop := sign = [] ∨ sign = ['+'] ∨ sign = ['-']

theorem withoutSeparators_sign {sign : List Char} (h : IsSign sign) (cs : List Char) :
    withoutSeparators (sign ++ cs) = sign ++ withoutSeparators cs := by
  obtain rfl | rfl | rfl := h
  · rfl
  · exact withoutSeparators_cons_of_ne (by decide) cs
  · exact withoutSeparators_cons_of_ne (by decide) cs

/-- The place behind an exponent mark where the first digit has to stand. -/
def digitPlace (cs : List Char) : Nat := if cs[1]?.any Scanning.isSign then 2 else 1

/-- An exponent is a mark, a sign and digits. -/
theorem exponent_eq (cs : List Char) :
    ¬ (cs.head?.any Scanning.isExponentMark = true ∧
        cs[digitPlace cs]?.any isAsciiDigit = true) ∧ exponent cs = [] ∨
      ∃ e sign d rest, Scanning.isExponentMark e = true ∧ IsSign sign ∧ isAsciiDigit d = true ∧
        cs = e :: (sign ++ d :: rest) ∧
        exponent cs = e :: (sign ++ (d :: rest).takeWhile isDigitPart) := by
  match cs with
  | [] => exact .inl ⟨by simp, rfl⟩
  | [e] => exact .inl ⟨by simp [digitPlace], exponent_singleton e⟩
  | e :: s :: rest =>
    have hplace : digitPlace (e :: s :: rest) = if s = '+' ∨ s = '-' then 2 else 1 := by
      simp [digitPlace, Scanning.isSign]
    rw [exponent_cons_cons, hplace]
    by_cases he : e = 'e' ∨ e = 'E'
    · have he' : Scanning.isExponentMark e = true := by simpa [Scanning.isExponentMark] using he
      rw [if_pos he]
      by_cases hs : s = '+' ∨ s = '-'
      · have hdigit : isAsciiDigit s = false := by obtain rfl | rfl := hs <;> rfl
        rw [if_pos hs, hdigit]
        cases rest with
        | nil => exact .inl ⟨by simp, by simp⟩
        | cons d rest =>
          by_cases hd : isAsciiDigit d = true
          · refine .inr ⟨e, [s], d, rest, he', ?_, hd, rfl, ?_⟩
            · obtain rfl | rfl := hs
              · exact .inr (.inl rfl)
              · exact .inr (.inr rfl)
            · rw [if_pos ⟨hs, hd⟩]
              rfl
          · exact .inl ⟨by simp [hd], by simp [hd]⟩
      · rw [if_neg hs, if_neg fun h => hs h.1]
        by_cases hd : isAsciiDigit s = true
        · exact .inr ⟨e, [], s, rest, he', .inl rfl, hd, rfl, if_pos hd⟩
        · exact .inl ⟨by simp [hd], if_neg hd⟩
    · exact .inl ⟨fun h => he (by simpa [Scanning.isExponentMark] using h.1), if_neg he⟩

theorem head?_normalExponent (cs : List Char) :
    normalExponent cs = [] ∨ ∃ more, normalExponent cs = 'e' :: more := by
  cases cs with
  | nil => exact .inl rfl
  | cons e es => exact .inr ⟨_, rfl⟩

end Literal

namespace Numeral

/-- Digits end where no digit follows. -/
theorem spanDigits_append {ds rest : List Char} (hds : ∀ c ∈ ds, isAsciiDigit c = true)
    (hrest : rest.head?.any isAsciiDigit = false) : spanDigits (ds ++ rest) = (ds, rest) := by
  unfold spanDigits
  rw [List.takeWhile_append_of_pos hds, List.dropWhile_append_of_pos hds]
  cases rest with
  | nil => simp
  | cons c rest =>
    have hc : ¬ isAsciiDigit c = true := by simpa using hrest
    rw [List.takeWhile_cons_of_neg hc, List.dropWhile_cons_of_neg hc, List.append_nil]

theorem exists_readExponent?_of_digits {sign ds : List Char} (hs : IsSign sign) (hne : ds ≠ [])
    (hds : ∀ c ∈ ds, isAsciiDigit c = true) :
    ∃ n, readExponent? ('e' :: (sign ++ ds)) = some n := by
  have hall : ds ≠ [] ∧ ds.all isAsciiDigit = true := ⟨hne, List.all_eq_true.mpr hds⟩
  simp only [readExponent?, true_or, if_true]
  obtain rfl | rfl | rfl := hs
  · split
    · exact absurd (hds '-' (by simp_all)) (by decide)
    · exact absurd (hds '+' (by simp_all)) (by decide)
    · rw [List.nil_append, if_pos hall]
      exact ⟨_, rfl⟩
  · exact ⟨valueOf 10 ds, by simp only [List.singleton_append, if_pos hall]; rfl⟩
  · exact ⟨-valueOf 10 ds, by simp only [List.singleton_append, if_pos hall]; rfl⟩

theorem exists_readExponent? (cs : List Char) :
    ∃ n, readExponent? (normalExponent (exponent cs)) = some n := by
  obtain ⟨-, h⟩ | ⟨e, sign, d, rest, -, hs, hd, -, h⟩ := exponent_eq cs
  · exact ⟨0, by rw [h]; rfl⟩
  · rw [h, normalExponent, withoutSeparators_sign hs]
    refine exists_readExponent?_of_digits hs ?_ isAsciiDigit_of_mem_digits
    rw [digits_cons hd]
    exact List.cons_ne_nil _ _

/-- A number that begins with a digit has no sign and is no word. -/
theorem readFloat?_of_digit {c : Char} (hc : isAsciiDigit c = true) (cs : List Char) :
    readFloat? (c :: cs) = readUnsigned? (c :: cs) := by
  have hlower : lowerAscii c = c := by
    refine if_neg fun h => ?_
    simp only [isAsciiDigit, Bool.and_eq_true, decide_eq_true_eq, Char.le_def,
      UInt32.le_iff_toNat_le, Char.reduceVal, UInt32.reduceToNat] at hc h
    omega
  have hword (first : Char) (more : List Char) (hfirst : isAsciiDigit first = false) :
      String.ofList ((c :: cs).map lowerAscii) ≠ String.ofList (first :: more) := by
    intro h
    have h := String.ofList_injective h
    rw [List.map_cons, hlower] at h
    exact ne_of_passes hc hfirst (List.cons.inj h).1
  simp only [readFloat?]
  split
  · rename_i h
    exact absurd (List.cons.inj h).1 (ne_of_passes hc (by decide))
  · rename_i h
    exact absurd (List.cons.inj h).1 (ne_of_passes hc (by decide))
  · split
    · exact absurd ‹_› (hword 'i' ['n', 'f'] (by decide))
    · exact absurd ‹_› (hword 'i' ['n', 'f', 'i', 'n', 'i', 't', 'y'] (by decide))
    · exact absurd ‹_› (hword 'n' ['a', 'n'] (by decide))
    · rfl

theorem exists_readUnsigned? {ds : List Char} (hne : ds ≠ [])
    (hds : ∀ c ∈ ds, isAsciiDigit c = true) (ps qs : List Char) : ∃ x, readUnsigned?
      (ds ++ (withoutSeparators (fraction ps) ++ normalExponent (exponent qs))) = some x := by
  obtain ⟨n, hn⟩ := exists_readExponent? qs
  have hpower := head?_normalExponent (exponent qs)
  generalize normalExponent (exponent qs) = power at hn hpower
  have hend : power.head?.any isAsciiDigit = false := by
    obtain rfl | ⟨more, rfl⟩ := hpower <;> rfl
  obtain ⟨-, h⟩ | ⟨d, rest, hd, -, h⟩ := fraction_eq ps
  · rw [h]
    obtain rfl | ⟨more, rfl⟩ := hpower
    · simp [readUnsigned?, withoutSeparators, spanDigits_append hds hend, hne, hn,
        -List.append_nil]
    · simp [readUnsigned?, withoutSeparators, spanDigits_append hds hend, hne, hn]
  · have hpoint : ('.' :: (withoutSeparators ((d :: rest).takeWhile isDigitPart) ++
        power)).head?.any isAsciiDigit = false := rfl
    rw [h, withoutSeparators_cons_of_ne (by decide), List.cons_append]
    simp [readUnsigned?, spanDigits_append hds hpoint,
      spanDigits_append isAsciiDigit_of_mem_digits hend, hne, hn]

/-- What is written down of a decimal number can be read, with its fraction or without. -/
theorem exists_readFloat? {c : Char} (hc : isAsciiDigit c = true) (cs : List Char) :
    ∃ x, readFloat? (Mantissa.ofChars (c :: cs)).digits = some x := by
  have hwhole := digits_cons hc cs
  obtain ⟨x, hx⟩ := exists_readUnsigned? (hwhole ▸ List.cons_ne_nil _ _)
    (@isAsciiDigit_of_mem_digits (c :: cs)) ((c :: cs).drop _) _
  refine ⟨x, ?_⟩
  rw [← hx, Mantissa.digits, Mantissa.ofChars, List.append_assoc, hwhole, List.cons_append]
  exact readFloat?_of_digit hc _

/-- Digits alone are the number they stand for, if it is not too large. -/
theorem readInt64?_of_digit {c : Char} (hc : isAsciiDigit c = true) {cs : List Char}
    (hcs : ∀ d ∈ cs, isAsciiDigit d = true) :
    readInt64? (c :: cs) = toInt64? (valueOf 10 (c :: cs)) := by
  have hall : c :: cs ≠ [] ∧ (c :: cs).all isAsciiDigit = true :=
    ⟨List.cons_ne_nil c cs, List.all_eq_true.mpr (List.forall_mem_cons.mpr ⟨hc, hcs⟩)⟩
  simp only [readInt64?]
  split
  · rename_i h
    exact absurd (List.cons.inj h).1 (ne_of_passes hc (by decide))
  · rename_i h
    exact absurd (List.cons.inj h).1 (ne_of_passes hc (by decide))
  · rw [if_pos hall]
    rfl

end Numeral

/-! ## Steps through a number -/

namespace Scanning

open Guarded

variable {text before rest : List Char} {line : Nat} {tokens : List Token} {c : Char}

theorem passIf_behind (p : Char → Bool) (h : text = before ++ rest) :
    passIf text p (behind before line tokens) =
      .ok ((), behind (before ++ (rest.take 1).filter p) line tokens) := by
  unfold passIf
  rw [bind_of_ok (peek_behind h)]
  cases rest with
  | nil => rw [List.take_nil, List.filter_nil, List.append_nil]; rfl
  | cons c rest =>
    rw [List.take_succ_cons, List.take_zero]
    by_cases hp : p c = true
    · rw [if_pos (show (c :: rest).head?.any p = true from hp), bind_of_ok (bump_cons h),
        List.filter_cons_of_pos hp]
      rfl
    · rw [if_neg (show ¬ (c :: rest).head?.any p = true from hp), List.filter_cons_of_neg hp,
        List.filter_nil, List.append_nil]
      rfl

/-- The places of a number are its digits and separators. -/
theorem takeDigits_behind {digit : Char → Bool} (part : Char → Bool)
    (hpart : ∀ c, part c = (digit c || c == '_')) (hsep : digit '_' = false) {turns : Nat}
    (h : text = before ++ rest) (hturns : rest.length < turns) (digits : List Char) :
    takeDigits text digit turns digits (behind before line tokens) =
      .ok (digits ++ withoutSeparators (rest.takeWhile part),
        behind (before ++ rest.takeWhile part) line tokens) := by
  induction turns generalizing before rest digits with
  | zero => exact absurd hturns (Nat.not_lt_zero _)
  | succ turns ih =>
    unfold takeDigits
    rw [bind_of_ok (peek_behind h)]
    cases rest with
    | nil => simp [withoutSeparators]; rfl
    | cons c rest =>
      have hmoved : text = (before ++ [c]) ++ rest := moved h
      have hrest := ih hmoved (by simpa using hturns)
      dsimp only [List.head?_cons]
      cases hd : digit c with
      | true =>
        rw [if_pos rfl, bind_of_ok (bump_cons h), hrest,
          List.takeWhile_cons_of_pos (by simp [hpart, hd]),
          withoutSeparators_cons_of_ne (ne_of_passes hd hsep)]
        simp
      | false =>
        rw [if_neg Bool.false_ne_true]
        by_cases hc : c = '_'
        · rw [if_pos hc, bind_of_ok (bump_cons h), hrest,
            List.takeWhile_cons_of_pos (by simp [hpart, hc]), hc]
          simp [withoutSeparators]
        · rw [if_neg hc, List.takeWhile_cons_of_neg (by simp [hpart, hd, hc])]
          simp [withoutSeparators]
          rfl

theorem rejectLetters_behind {written : List Char} (h : text = before ++ (written ++ rest)) :
    rejectLetters text (utf8Length before) (behind (before ++ written) line tokens) =
      if trailing rest ≠ [] then
        .error (.inr ⟨line, .trailingLetters (String.ofList (written ++ trailing rest))⟩)
      else .ok ((), behind (before ++ written) line tokens) := by
  have hahead : text = (before ++ written) ++ rest := by rw [h, List.append_assoc]
  unfold rejectLetters
  rw [bind_of_ok (peek_behind hahead)]
  cases rest with
  | nil => rfl
  | cons c rest =>
    unfold trailing
    by_cases hc : isWordPart c = true
    · have hletters : text = before ++ ((written ++ (c :: rest).takeWhile isWordPart) ++
          (c :: rest).dropWhile isWordPart) := by
        rw [h, List.append_assoc, List.takeWhile_append_dropWhile]
      have hstretch := stretch_behind hletters
      rw [← List.append_assoc, utf8Length_append (before ++ written)] at hstretch
      rw [if_pos (show (c :: rest).head?.any isWordPart = true from hc),
        bind_of_ok (ahead_behind hahead), bind_of_ok get_behind, pos_behind,
        bind_of_ok (hstretch _), if_pos (by rw [List.takeWhile_cons_of_pos hc]; simp)]
      rfl
    · rw [if_neg (show ¬ (c :: rest).head?.any isWordPart = true from hc),
        List.takeWhile_cons_of_neg hc, if_neg (fun h => h rfl)]
      rfl

theorem newlines_of_isPlain {cs : List Char} (h : ∀ c ∈ cs, isPlain c = true) :
    newlines cs = 0 := by
  refine newlines_eq_zero ?_
  rintro c hc rfl
  exact absurd (h _ hc) (by decide)

/-- The end of a number: no letter follows what is written of it, and then `finish` reads it. -/
theorem ended_behind {cs written : List Char} {literal : Except LexicalCause Lexeme}
    {finish : Scanning Unit} (h : text = before ++ c :: cs) (hw : c :: cs = written ++ rest)
    (hne : written ≠ []) (hplain : ∀ d ∈ written, isPlain d = true)
    (hfinish : finish (behind (before ++ written) line tokens) = match literal with
      | .ok lexeme =>
        push lexeme line (utf8Length before) (behind (before ++ written) line tokens)
      | .error cause => .error (.inr ⟨line, cause⟩)) :
    (rejectLetters text (utf8Length before) >>= fun _ => finish)
        (behind (before ++ written) line tokens) =
      outcome before line tokens c cs
        ((ended written rest literal).mapError fun cause => (0, cause)) := by
  have hreject : rejectLetters text _ (behind _ line tokens) = _ := rejectLetters_behind (hw ▸ h)
  unfold ended
  by_cases hr : trailing rest ≠ []
  · rw [if_pos hr] at hreject ⊢
    rw [bind_of_error hreject]
    rfl
  · rw [if_neg hr] at hreject ⊢
    rw [bind_of_ok hreject, hfinish]
    cases literal with
    | error cause => rfl
    | ok lexeme =>
      obtain ⟨d, more, rfl⟩ := List.exists_cons_of_ne_nil hne
      obtain ⟨rfl, rfl⟩ := List.cons.inj hw
      have htake : (more ++ rest).take ((c :: more).length - 1) = more := by simp
      show _ = outcome before line tokens c (more ++ rest) (.ok ⟨lexeme, (c :: more).length - 1⟩)
      simp only [outcome, htake, newlines_of_isPlain hplain]
      exact push_behind lexeme line (c :: more)

/-! ## Hexadecimal and decimal numbers -/

theorem scanHex_behind {x : Char} {body : List Char} (h : text = before ++ c :: x :: body)
    (hc : c = '0') (hx : x = 'x' ∨ x = 'X') :
    scanHex text (utf8Length before) (behind before line tokens) =
      outcome before line tokens c (x :: body)
        ((readHex [c, x] body).mapError fun cause => (0, cause)) := by
  have hmark : text = (before ++ [c]) ++ x :: body := moved h
  have hbody : text = (before ++ [c] ++ [x]) ++ body := moved hmark
  have hsuffix : text = (before ++ [c] ++ [x] ++ body.takeWhile isHexPart) ++
      body.dropWhile isHexPart := by
    rw [List.append_assoc, List.takeWhile_append_dropWhile, ← hbody]
  set suffix := ((body.dropWhile isHexPart).take 1).filter isLongSuffix with hsuffix'
  have hwritten : c :: x :: body =
      ([c, x] ++ body.takeWhile isHexPart ++ suffix) ++
        (body.dropWhile isHexPart).drop suffix.length := by
    obtain ⟨after, hafter⟩ := prefix_filter_take_one isLongSuffix (body.dropWhile isHexPart)
    rw [← hsuffix'] at hafter
    rw [← hafter, List.drop_left, List.append_assoc, hafter, List.append_assoc,
      List.takeWhile_append_dropWhile]
    rfl
  unfold scanHex
  rw [bind_of_ok (bump_cons h), bind_of_ok (bump_cons hmark),
    bind_of_ok (takeDigits_behind isHexPart (fun _ => rfl) (by decide) hbody
      (lt_turns hbody) []), bind_of_ok (passIf_behind isLongSuffix hsuffix)]
  rw [show before ++ [c] ++ [x] ++ body.takeWhile isHexPart ++ suffix =
      before ++ ([c, x] ++ body.takeWhile isHexPart ++ suffix) by simp]
  refine ended_behind h hwritten (by simp) ?_ ?_
  · rw [List.forall_mem_append, List.forall_mem_append]
    refine ⟨⟨List.forall_mem_cons.mpr ⟨?_, List.forall_mem_singleton.mpr ?_⟩,
      fun d hd => isPlain_of_isHexPart (of_mem_takeWhile hd)⟩, fun d hd => ?_⟩
    · rw [hc]; decide
    · obtain rfl | rfl := hx <;> decide
    · have hL := (List.mem_filter.mp hd).2
      obtain hL | hL := Bool.or_eq_true_iff.mp hL <;> obtain rfl := beq_iff_eq.mp hL <;> decide
  · rw [List.nil_append]
    set digits := withoutSeparators (body.takeWhile isHexPart)
    have hsince : since text _ (behind _ line tokens) = _ := since_behind (hwritten ▸ h)
    by_cases hd : digits = []
    · simp only [if_pos hd]
      rw [bind_of_ok hsince]
      rfl
    · simp only [if_neg hd, integer]
      cases Numeral.toInt64? (Numeral.valueOf 16 digits) with
      | none =>
        dsimp only
        rw [bind_of_ok hsince]
        rfl
      | some value => rfl

theorem takePoint_behind (h : text = before ++ rest) (digits : List Char) :
    takePoint text digits (behind before line tokens) =
      .ok ((digits ++ withoutSeparators (fraction rest), decide (fraction rest ≠ [])),
        behind (before ++ fraction rest) line tokens) := by
  unfold takePoint
  rw [bind_of_ok (peek_behind h), bind_of_ok (peekNth_behind h 1)]
  obtain ⟨hno, hnone⟩ | ⟨d, more, hd, rfl, hsome⟩ := fraction_eq rest
  · rw [if_neg hno, hnone]
    simp [withoutSeparators]
    rfl
  · have hmoved : text = (before ++ ['.']) ++ d :: more := moved h
    rw [if_pos ⟨rfl, by simpa using hd⟩, bind_of_ok (bump_cons h),
      bind_of_ok (takeDigits_behind isDigitPart (fun _ => rfl) (by decide) hmoved
        (lt_turns hmoved) _), hsome, withoutSeparators_cons_of_ne (by decide)]
    simp
    rfl

theorem any_isSign {sign : List Char} (hs : IsSign sign) (hc : isAsciiDigit c = true) (e : Char) :
    (e :: (sign ++ c :: rest))[1]?.any isSign = !sign.isEmpty := by
  obtain rfl | rfl | rfl := hs
  · have hplus : c ≠ '+' := ne_of_passes hc (by decide)
    have hminus : c ≠ '-' := ne_of_passes hc (by decide)
    simp [isSign, hplus, hminus]
  · rfl
  · rfl

theorem takeSign_behind {sign : List Char} (hs : IsSign sign)
    (h : text = before ++ (sign ++ rest)) :
    takeSign text (!sign.isEmpty) (behind before line tokens) =
      .ok (sign, behind (before ++ sign) line tokens) := by
  unfold takeSign
  obtain rfl | rfl | rfl := hs
  · rw [List.append_nil]
    rfl
  · rw [if_pos (show (! ['+'].isEmpty) = true from rfl), bind_of_ok (bump_cons h)]
    rfl
  · rw [if_pos (show (! ['-'].isEmpty) = true from rfl), bind_of_ok (bump_cons h)]
    rfl

theorem takePower_behind (h : text = before ++ rest) (digits : List Char) :
    takePower text digits (behind before line tokens) =
      .ok ((digits ++ normalExponent (exponent rest), decide (exponent rest ≠ [])),
        behind (before ++ exponent rest) line tokens) := by
  unfold takePower
  rw [bind_of_ok (peek_behind h)]
  obtain ⟨hno, hnone⟩ | ⟨e, sign, d, more, he, hs, hd, rfl, hsome⟩ := exponent_eq rest
  · by_cases he : rest.head?.any isExponentMark = true
    · have hd : ¬ rest[digitPlace rest]?.any isAsciiDigit = true := fun hd => hno ⟨he, hd⟩
      unfold digitPlace at hd
      rw [if_pos he, bind_of_ok (peekNth_behind h 1), bind_of_ok (peekNth_behind h _), if_neg hd,
        hnone]
      simp [normalExponent]
      rfl
    · rw [if_neg he, hnone]
      simp [normalExponent]
      rfl
  · have hmoved : text = (before ++ [e]) ++ (sign ++ d :: more) := by simpa using h
    have hdigits : text = (before ++ [e] ++ sign) ++ d :: more := by simpa using h
    have hplace : (if (!sign.isEmpty) = true then 2 else 1) = sign.length + 1 := by
      obtain rfl | rfl | rfl := hs <;> rfl
    rw [if_pos (by simpa using he), bind_of_ok (peekNth_behind h 1), any_isSign hs hd,
      bind_of_ok (peekNth_behind h _), hplace, if_pos (by simpa using hd),
      bind_of_ok (bump_cons h), bind_of_ok (takeSign_behind hs hmoved),
      bind_of_ok (takeDigits_behind isDigitPart (fun _ => rfl) (by decide) hdigits
        (lt_turns hdigits) _), hsome, normalExponent, withoutSeparators_sign hs]
    simp
    rfl

theorem storeDecimal_behind {cs written digits : List Char} {isFloat : Bool}
    (h : text = before ++ c :: cs) (hw : c :: cs = written ++ rest) (hne : written ≠ [])
    (hplain : ∀ d ∈ written, isPlain d = true) (hfloat : ∃ x, Numeral.readFloat? digits = some x)
    (hint : isFloat = false →
      Numeral.readInt64? digits = Numeral.toInt64? (Numeral.valueOf 10 digits)) :
    storeDecimal text (utf8Length before) digits isFloat (behind (before ++ written) line tokens) =
      outcome before line tokens c cs ((ended written rest (if isFloat then
        .ok (.float (String.ofList digits)) else integer (Numeral.valueOf 10 digits)
          (.integerRange (String.ofList written)))).mapError fun cause => (0, cause)) := by
  refine ended_behind h hw hne hplain ?_
  cases isFloat with
  | true =>
    obtain ⟨x, hx⟩ := hfloat
    rw [if_pos rfl, if_pos rfl, hx]
    rfl
  | false =>
    rw [if_neg Bool.false_ne_true, if_neg Bool.false_ne_true, hint rfl, integer]
    cases Numeral.toInt64? (Numeral.valueOf 10 digits) with
    | none =>
      dsimp only
      rw [bind_of_ok (since_behind (hw ▸ h))]
      rfl
    | some value => rfl

/-! ## Suffixes -/

theorem takeSuffix_none {start : Nat} (h : text = before ++ rest)
    (hl : ¬ rest.head?.any isLongSuffix = true) (hf : ¬ rest.head?.any isFloatSuffix = true)
    (isFloat : Bool) : takeSuffix text start isFloat (behind before line tokens) =
      .ok (isFloat, behind before line tokens) := by
  unfold takeSuffix
  rw [bind_of_ok (peek_behind h), if_neg hl, bind_of_ok (peek_behind h), if_neg hf]
  rfl

theorem takeSuffix_float {start : Nat} (h : text = before ++ c :: rest)
    (hl : ¬ isLongSuffix c = true) (hf : isFloatSuffix c = true) (isFloat : Bool) :
    takeSuffix text start isFloat (behind before line tokens) =
      .ok (true, behind (before ++ [c]) line tokens) := by
  unfold takeSuffix
  rw [bind_of_ok (peek_behind h), if_neg (show ¬ (c :: rest).head?.any isLongSuffix = true from hl),
    bind_of_ok (peek_behind h), if_pos (show (c :: rest).head?.any isFloatSuffix = true from hf),
    bind_of_ok (bump_cons h)]
  rfl

theorem takeSuffix_long {start : Nat} (h : text = before ++ c :: rest)
    (hl : isLongSuffix c = true) : takeSuffix text start false (behind before line tokens) =
      .ok (false, behind (before ++ [c]) line tokens) := by
  unfold takeSuffix
  rw [bind_of_ok (peek_behind h), if_pos (show (c :: rest).head?.any isLongSuffix = true from hl),
    if_neg Bool.false_ne_true, bind_of_ok (bump_cons h)]
  rfl

/-- The letter for an integer takes one byte. -/
theorem takeSuffix_fault {written : List Char} (h : text = before ++ (written ++ c :: rest))
    (hl : isLongSuffix c = true) :
    takeSuffix text (utf8Length before) true (behind (before ++ written) line tokens) =
      .error (.inr ⟨line, .integerSuffix (String.ofList (written ++ [c]))⟩) := by
  have hahead : text = (before ++ written) ++ c :: rest := by rw [h, List.append_assoc]
  have hstretch := @stretch_behind text before rest (written ++ [c]) (by simpa using h)
  have hbyte : utf8Length (before ++ (written ++ [c])) = utf8Length (before ++ written) + 1 := by
    rw [← List.append_assoc, utf8Length_append (before ++ written)]
    obtain rfl | rfl : c = 'L' ∨ c = 'l' := by simpa [isLongSuffix] using hl
    · rfl
    · rfl
  rw [hbyte] at hstretch
  unfold takeSuffix
  rw [bind_of_ok (peek_behind hahead),
    if_pos (show (c :: rest).head?.any isLongSuffix = true from hl), if_pos rfl,
    bind_of_ok get_behind, pos_behind, bind_of_ok (hstretch _)]
  rfl

theorem exists_cons_of_any_head? {p : Char → Bool} (h : rest.head?.any p = true) :
    ∃ c more, rest = c :: more ∧ p c = true := by
  cases rest with
  | nil => cases h
  | cons c more => exact ⟨c, more, rfl, h⟩

/-- The suffix of a number, and what it makes of its digits. -/
theorem finish_behind {cs : List Char} {m : Mantissa} (h : text = before ++ c :: cs)
    (hw : c :: cs = m.written ++ rest) (hne : m.written ≠ [])
    (hplain : ∀ d ∈ m.written, isPlain d = true)
    (hfloat : ∃ x, Numeral.readFloat? m.digits = some x)
    (hint : m.isPlain = true →
      Numeral.readInt64? m.digits = Numeral.toInt64? (Numeral.valueOf 10 m.digits)) :
    (takeSuffix text (utf8Length before) (!m.isPlain) >>= fun isFloat =>
      storeDecimal text (utf8Length before) m.digits isFloat)
        (behind (before ++ m.written) line tokens) =
      outcome before line tokens c cs ((m.finish rest).mapError fun cause => (0, cause)) := by
  have hahead : text = (before ++ m.written) ++ rest := by rw [h, hw, List.append_assoc]
  by_cases hl : rest.head?.any isLongSuffix = true
  · obtain ⟨s, after, rfl, -⟩ := exists_cons_of_any_head? hl
    have hs : s = 'L' ∨ s = 'l' := by simpa [isLongSuffix] using hl
    have hsuffix : isPlain s = true := by obtain rfl | rfl := hs <;> decide
    rw [Mantissa.finish, if_pos hs]
    by_cases hm : m.isPlain = true
    · rw [if_pos hm, hm, Bool.not_true, bind_of_ok (takeSuffix_long hahead hl), List.append_assoc,
        storeDecimal_behind h (by rw [hw, List.append_assoc]; rfl) (by simp)
          (List.forall_mem_append.mpr ⟨hplain, List.forall_mem_singleton.mpr hsuffix⟩) hfloat
          fun _ => hint hm]
      rfl
    · rw [if_neg hm, Bool.eq_false_of_not_eq_true hm, Bool.not_false,
        bind_of_error (takeSuffix_fault (hw ▸ h) hl)]
      rfl
  · by_cases hf : rest.head?.any isFloatSuffix = true
    · obtain ⟨s, after, rfl, -⟩ := exists_cons_of_any_head? hf
      have hs : s = 'D' ∨ s = 'd' ∨ s = 'F' ∨ s = 'f' := by
        simpa [isFloatSuffix, or_assoc] using hf
      have hsuffix : isPlain s = true := by obtain rfl | rfl | rfl | rfl := hs <;> decide
      rw [Mantissa.finish, if_neg (by simpa [isLongSuffix] using hl), if_pos hs,
        bind_of_ok (takeSuffix_float hahead hl hf _), List.append_assoc,
        storeDecimal_behind h (by rw [hw, List.append_assoc]; rfl) (by simp)
          (List.forall_mem_append.mpr ⟨hplain, List.forall_mem_singleton.mpr hsuffix⟩) hfloat
          fun h => absurd h (by decide)]
      rfl
    · have hfinish : m.finish rest =
          ended m.written rest (if m.isPlain then m.int m.written else .ok m.float) := by
        cases rest with
        | nil => rfl
        | cons s after =>
          rw [Mantissa.finish, if_neg (by simpa [isLongSuffix] using hl),
            if_neg (by simpa [isFloatSuffix, or_assoc] using hf)]
      rw [bind_of_ok (takeSuffix_none hahead hl hf _), storeDecimal_behind h hw hne hplain hfloat
        (fun hf => hint (by simpa using hf)), hfinish]
      cases m.isPlain <;> rfl

theorem scanDecimal_behind (h : text = before ++ c :: rest) (hc : isAsciiDigit c = true) :
    scanDecimal text (utf8Length before) (behind before line tokens) =
      outcome before line tokens c rest
        ((readDecimal (c :: rest)).mapError fun cause => (0, cause)) := by
  set m := Mantissa.ofChars (c :: rest)
  -- what the text goes on with, step by step
  have hwhole : text = (before ++ m.whole) ++ (c :: rest).drop m.whole.length := by
    rw [List.append_assoc, h]
    exact congrArg _ (List.prefix_iff_eq_append.mp (List.takeWhile_prefix _)).symm
  have hpointed : text = (before ++ m.whole ++ m.point) ++
      (c :: rest).drop (m.whole.length + m.point.length) := by
    rw [← List.drop_drop, List.append_assoc, hwhole]
    exact congrArg _ (List.prefix_iff_eq_append.mp (prefix_fraction _)).symm
  have hrest : c :: rest = m.written ++ (c :: rest).drop m.written.length :=
    (List.prefix_iff_eq_append.mp (prefix_mantissa (c :: rest))).symm
  -- the steps
  have hdigits : takeDigits text isAsciiDigit (turns text) [] (behind before line tokens) =
      .ok (withoutSeparators m.whole, behind (before ++ m.whole) line tokens) :=
    takeDigits_behind isDigitPart (fun _ => rfl) (by decide) h (lt_turns h) []
  have hpoint :
    takePoint text (withoutSeparators m.whole) (behind (before ++ m.whole) line tokens) =
      .ok ((withoutSeparators m.whole ++ withoutSeparators m.point, decide (m.point ≠ [])),
        behind (before ++ m.whole ++ m.point) line tokens) :=
    takePoint_behind hwhole _
  have hpower : takePower text (withoutSeparators m.whole ++ withoutSeparators m.point)
      (behind (before ++ m.whole ++ m.point) line tokens) =
        .ok ((m.digits, decide (m.power ≠ [])),
          behind (before ++ m.whole ++ m.point ++ m.power) line tokens) :=
    takePower_behind hpointed _
  have hfloat : (decide (m.point ≠ []) || decide (m.power ≠ [])) = !m.isPlain := by
    simp [Mantissa.isPlain]
  unfold scanDecimal
  rw [bind_of_ok hdigits, bind_of_ok hpoint]
  dsimp only
  rw [bind_of_ok hpower]
  dsimp only
  rw [hfloat,
    show before ++ m.whole ++ m.point ++ m.power = before ++ m.written by simp [Mantissa.written]]
  refine finish_behind h hrest ?_ (fun d => isPlain_of_mem_mantissa)
    (Numeral.exists_readFloat? hc rest) fun hm => ?_
  · simp [m, Mantissa.ofChars, Mantissa.written, isDigitPart_of_isAsciiDigit hc]
  · have hplain : m.digits = c :: withoutSeparators (rest.takeWhile isDigitPart) := by
      obtain ⟨h1, h2⟩ : m.point = [] ∧ m.power = [] := by simpa [Mantissa.isPlain] using hm
      rw [Mantissa.digits, h1, h2, ← digits_cons hc]
      simp [m, Mantissa.ofChars, withoutSeparators, normalExponent]
    rw [hplain]
    exact Numeral.readInt64?_of_digit hc isAsciiDigit_of_mem_digits

theorem scanNumber_behind (h : text = before ++ c :: rest) (hc : isAsciiDigit c = true) :
    scanNumber text (behind before line tokens) =
      outcome before line tokens c rest
        ((readNumber c rest).mapError fun cause => (0, cause)) := by
  have hdecimal : scanDecimal text _ (behind _ line tokens) = _ := scanDecimal_behind h hc
  unfold scanNumber
  rw [bind_of_ok get_behind, bind_of_ok (peek_behind h), bind_of_ok (peekNth_behind h 1)]
  cases rest with
  | nil =>
    rw [if_neg (by simp)]
    exact hdecimal
  | cons x body =>
    rw [readNumber]
    by_cases hx : c = '0' ∧ (x = 'x' ∨ x = 'X')
    · rw [if_pos hx, if_pos (by simpa using hx)]
      exact scanHex_behind h hx.1 hx.2
    · rw [if_neg hx, if_neg (by simpa using hx)]
      exact hdecimal

end Scanning

end PipelineScript
