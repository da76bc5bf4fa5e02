import PipelineScript.Proofs.Token.Alphabet

/-! # Literals at the front of a text

A literal takes a stretch from the front of a text and depends on that stretch, and on nothing
behind it but the fact that it ends there. So it is read again when the text is cut behind it
(`readNumber_cut`, `readString_cut`). -/

namespace PipelineScript.Literal

open Text

variable {xs ys : List Char} {p : Char → Bool}

/-! ## Runs of characters -/

theorem takeWhile_cut (h : ((xs ++ ys).takeWhile p).length ≤ xs.length) :
    xs.takeWhile p = (xs ++ ys).takeWhile p := by
  rw [List.takeWhile_append] at h ⊢
  by_cases hl : (xs.takeWhile p).length = xs.length
  · simp only [hl, if_true, List.length_append] at h ⊢
    have hx : xs.takeWhile p = xs := (List.takeWhile_prefix p).eq_of_length hl
    have hy : ys.takeWhile p = [] := List.eq_nil_of_length_eq_zero (by omega)
    rw [hx, hy, List.append_nil]
  · simp only [hl, if_false]

theorem takeWhile_eq_nil_of_append (h : (xs ++ ys).takeWhile p = []) : xs.takeWhile p = [] := by
  have hl : ((xs ++ ys).takeWhile p).length ≤ xs.length := by rw [h]; exact Nat.zero_le _
  rw [takeWhile_cut hl, h]

theorem of_mem_takeWhile {c : Char} (h : c ∈ xs.takeWhile p) : p c = true :=
  List.all_eq_true.mp (List.all_takeWhile) c h

theorem drop_cut {n : Nat} (h : n ≤ xs.length) : (xs ++ ys).drop n = xs.drop n ++ ys :=
  List.drop_append_of_le_length h

/-! ## Fractions and exponents -/

@[simp] theorem fraction_nil : fraction [] = [] := rfl

@[simp] theorem fraction_singleton (c : Char) : fraction [c] = [] := by
  unfold fraction; split <;> simp_all

theorem fraction_cons_cons (c d : Char) (rest : List Char) :
    fraction (c :: d :: rest) =
      if c = '.' ∧ isAsciiDigit d then '.' :: (d :: rest).takeWhile isDigitPart else [] := by
  unfold fraction; split <;> simp_all

theorem isDigitPart_of_isAsciiDigit {c : Char} (h : isAsciiDigit c = true) :
    isDigitPart c = true := by
  simp [isDigitPart, h]

theorem prefix_fraction (cs : List Char) : fraction cs <+: cs := by
  match cs with
  | [] => simp
  | [c] => simp
  | c :: d :: rest =>
    rw [fraction_cons_cons]
    split
    · rename_i h
      rw [h.1]
      exact List.cons_prefix_cons.mpr ⟨rfl, List.takeWhile_prefix _⟩
    · exact List.nil_prefix

theorem fraction_cut (h : (fraction (xs ++ ys)).length ≤ xs.length) :
    fraction xs = fraction (xs ++ ys) := by
  match xs, ys with
  | [], _ => exact (List.eq_nil_of_length_eq_zero (Nat.le_zero.mp h)).symm
  | [c], [] => rfl
  | [c], d :: rest =>
    rw [List.singleton_append, fraction_cons_cons] at h ⊢
    split at h
    · rename_i hc
      simp [isDigitPart_of_isAsciiDigit hc.2] at h
    · rename_i hc
      rw [if_neg hc, fraction_singleton]
  | c :: d :: rest, ys =>
    simp only [List.cons_append, fraction_cons_cons, List.length_cons] at h ⊢
    split at h
    · rename_i hc
      have hcut : (d :: rest).takeWhile isDigitPart = (d :: rest ++ ys).takeWhile isDigitPart :=
        takeWhile_cut (by simpa using h)
      rw [if_pos hc, if_pos hc, hcut, List.cons_append]
    · rename_i hc
      rw [if_neg hc, if_neg hc]

@[simp] theorem exponent_nil : exponent [] = [] := rfl

@[simp] theorem exponent_singleton (e : Char) : exponent [e] = [] := by
  unfold exponent; simp

theorem exponent_cons_cons (e s : Char) (rest : List Char) :
    exponent (e :: s :: rest) =
      if e = 'e' ∨ e = 'E' then
        if (s = '+' ∨ s = '-') ∧ rest.head?.any isAsciiDigit then
          e :: s :: rest.takeWhile isDigitPart
        else if isAsciiDigit s then e :: (s :: rest).takeWhile isDigitPart
        else []
      else [] := by
  unfold exponent
  cases rest with
  | nil =>
    by_cases hs : isAsciiDigit s
    · simp [hs, isDigitPart_of_isAsciiDigit hs]
    · simp [hs]
  | cons d rest => simp only [List.head?_cons, Option.any_some]; rfl

/-- Digits at the front of a text begin with one that is still there when the text is cut. -/
theorem head?_cut (h : (xs ++ ys).head?.any isAsciiDigit)
    (hl : ((xs ++ ys).takeWhile isDigitPart).length ≤ xs.length) :
    xs.head?.any isAsciiDigit := by
  match xs, ys with
  | [], [] => exact h
  | [], d :: ys =>
    have hd : isAsciiDigit d = true := by simpa using h
    simp [isDigitPart_of_isAsciiDigit hd] at hl
  | d :: xs, ys => simpa using h

theorem head?_append (h : xs.head?.any p) : (xs ++ ys).head?.any p := by
  cases xs with
  | nil => cases h
  | cons d xs => exact h

theorem prefix_exponent (cs : List Char) : exponent cs <+: cs := by
  match cs with
  | [] => simp
  | [e] => simp
  | e :: s :: rest =>
    rw [exponent_cons_cons]
    split
    · split
      · exact List.cons_prefix_cons.mpr
          ⟨rfl, List.cons_prefix_cons.mpr ⟨rfl, List.takeWhile_prefix _⟩⟩
      · split
        · exact List.cons_prefix_cons.mpr ⟨rfl, List.takeWhile_prefix _⟩
        · exact List.nil_prefix
    · exact List.nil_prefix

theorem exponent_cut (h : (exponent (xs ++ ys)).length ≤ xs.length) :
    exponent xs = exponent (xs ++ ys) := by
  match xs, ys with
  | [], _ => exact (List.eq_nil_of_length_eq_zero (Nat.le_zero.mp h)).symm
  | [e], [] => rfl
  | [e], s :: rest =>
    rw [List.singleton_append, exponent_cons_cons] at h ⊢
    rw [exponent_singleton]
    split at h
    · rename_i he
      rw [if_pos he]
      split at h
      · simp at h
      · rename_i hs
        rw [if_neg hs]
        split at h
        · rename_i hd
          simp [isDigitPart_of_isAsciiDigit hd] at h
        · rename_i hd
          rw [if_neg hd]
    · rename_i he
      rw [if_neg he]
  | e :: s :: rest, ys =>
    simp only [List.cons_append, exponent_cons_cons, List.length_cons] at h ⊢
    by_cases he : e = 'e' ∨ e = 'E'
    · simp only [he, if_true] at h ⊢
      by_cases hs : (s = '+' ∨ s = '-') ∧ (rest ++ ys).head?.any isAsciiDigit
      · simp only [hs, and_self, if_true, List.length_cons] at h ⊢
        have hcut : rest.takeWhile isDigitPart = (rest ++ ys).takeWhile isDigitPart :=
          takeWhile_cut (by omega)
        have hh : rest.head?.any isAsciiDigit := head?_cut hs.2 (by omega)
        simp [hh, hcut]
      · have hs' : ¬ ((s = '+' ∨ s = '-') ∧ rest.head?.any isAsciiDigit) :=
          fun h => hs ⟨h.1, head?_append h.2⟩
        rw [if_neg hs] at h ⊢
        rw [if_neg hs']
        by_cases hd : isAsciiDigit s
        · rw [if_pos hd] at h ⊢
          have hcut : (s :: rest).takeWhile isDigitPart = (s :: rest ++ ys).takeWhile isDigitPart :=
            takeWhile_cut (by simpa using h)
          rw [if_pos hd, hcut, List.cons_append]
        · rw [if_neg hd, if_neg hd]
    · simp only [he, if_false]

/-! ## Numbers -/

theorem append_prefix_of_drop {as bs cs : List Char} (ha : as <+: cs)
    (hb : bs <+: cs.drop as.length) : as ++ bs <+: cs := by
  obtain ⟨rest, rfl⟩ := ha
  rw [List.drop_left] at hb
  exact (List.prefix_append_right_inj as).mpr hb

theorem prefix_mantissa (cs : List Char) : (Mantissa.ofChars cs).written <+: cs := by
  have hw : cs.takeWhile isDigitPart <+: cs := List.takeWhile_prefix _
  have hp := append_prefix_of_drop hw (prefix_fraction _)
  refine append_prefix_of_drop hp ?_
  rw [List.length_append]
  exact prefix_exponent _

theorem mantissa_cut (h : (Mantissa.ofChars (xs ++ ys)).written.length ≤ xs.length) :
    Mantissa.ofChars xs = Mantissa.ofChars (xs ++ ys) := by
  simp only [Mantissa.written, Mantissa.ofChars, List.length_append] at h ⊢
  have hw : xs.takeWhile isDigitPart = (xs ++ ys).takeWhile isDigitPart :=
    takeWhile_cut (by omega)
  rw [← hw] at h ⊢
  generalize xs.takeWhile isDigitPart = whole at h ⊢
  rw [drop_cut (by omega : whole.length ≤ xs.length)] at h ⊢
  have hp : fraction (xs.drop whole.length) = fraction (xs.drop whole.length ++ ys) :=
    fraction_cut (by rw [List.length_drop]; omega)
  rw [← hp] at h ⊢
  generalize fraction (xs.drop whole.length) = point at h ⊢
  have hn : whole.length + point.length ≤ xs.length := by omega
  rw [drop_cut hn] at h ⊢
  have he : exponent (xs.drop (whole.length + point.length)) =
      exponent (xs.drop (whole.length + point.length) ++ ys) :=
    exponent_cut (by rw [List.length_drop]; omega)
  rw [← he]

/-! ## The end of a number -/

theorem ended_eq_ok {written rest : List Char} {literal : Except LexicalCause Lexeme}
    {t : Lexeme.Taken} (h : ended written rest literal = .ok t) :
    trailing rest = [] ∧ literal.map (⟨·, written.length - 1⟩) = .ok t := by
  unfold ended at h
  split at h
  · cases h
  · exact ⟨Classical.not_not.mp ‹_›, h⟩

theorem ended_cut {written : List Char} {literal : Except LexicalCause Lexeme} {t : Lexeme.Taken}
    (h : ended written (xs ++ ys) literal = .ok t) : ended written xs literal = .ok t := by
  obtain ⟨hr, hl⟩ := ended_eq_ok h
  have hx : trailing xs = [] := takeWhile_eq_nil_of_append hr
  rw [ended, if_neg (Classical.not_not.mpr hx)]
  exact hl

theorem more_of_ended {written rest : List Char} {literal : Except LexicalCause Lexeme}
    {t : Lexeme.Taken} (h : ended written rest literal = .ok t) :
    literal = .ok t.lexeme ∧ t.more = written.length - 1 := by
  obtain ⟨-, hl⟩ := ended_eq_ok h
  cases literal with
  | error cause => cases hl
  | ok l => cases hl; exact ⟨rfl, rfl⟩

/-- The lexeme is a number. -/
def IsNumber : Lexeme → Prop
  | .int _ | .float _ => True
  | _ => False

theorem isNumber_of_integer {value : Nat} {cause : LexicalCause} {l : Lexeme}
    (h : integer value cause = .ok l) : IsNumber l := by
  unfold integer at h
  split at h <;> cases h
  trivial

theorem isNumber_of_int {m : Mantissa} {written : List Char} {l : Lexeme}
    (h : m.int written = .ok l) : IsNumber l := isNumber_of_integer h

theorem isNumber_of_float {m : Mantissa} {l : Lexeme}
    (h : (Except.ok m.float : Except LexicalCause Lexeme) = .ok l) : IsNumber l := by
  cases h; exact trivial

/-- A suffix is one letter, or there is none. -/
theorem finish_takes {m : Mantissa} {rest : List Char} {t : Lexeme.Taken}
    (h : m.finish rest = .ok t) :
    IsNumber t.lexeme ∧ ∃ suffix after, rest = suffix ++ after ∧
      t.more = (m.written ++ suffix).length - 1 ∧ ∀ c ∈ suffix, isPlain c = true := by
  have hend {r} (h : ended m.written r (if m.isPlain then m.int m.written else .ok m.float) = .ok t) :
      IsNumber t.lexeme ∧ t.more = m.written.length - 1 := by
    obtain ⟨hl, hm⟩ := more_of_ended h
    refine ⟨?_, hm⟩
    split at hl
    · exact isNumber_of_int hl
    · exact isNumber_of_float hl
  unfold Mantissa.finish at h
  split at h
  · rename_i s after
    split at h
    · rename_i hs
      split at h
      · obtain ⟨hl, hm⟩ := more_of_ended h
        refine ⟨isNumber_of_int hl, [s], after, rfl, hm, ?_⟩
        refine List.forall_mem_singleton.mpr ?_
        obtain rfl | rfl := hs <;> decide
      · cases h
    · split at h
      · rename_i hs
        obtain ⟨hl, hm⟩ := more_of_ended h
        refine ⟨isNumber_of_float hl, [s], after, rfl, hm, ?_⟩
        refine List.forall_mem_singleton.mpr ?_
        obtain rfl | rfl | rfl | rfl := hs <;> decide
      · obtain ⟨hl, hm⟩ := hend h
        exact ⟨hl, [], _, rfl, by simpa using hm, by simp⟩
  · obtain ⟨hl, hm⟩ := hend h
    exact ⟨hl, [], _, rfl, by simpa using hm, by simp⟩

theorem finish_cut {m : Mantissa} {t : Lexeme.Taken} (h : m.finish (xs ++ ys) = .ok t)
    (hl : t.more + 1 ≤ m.written.length + xs.length) (hw : m.written ≠ []) :
    m.finish xs = .ok t := by
  have hpos : 0 < m.written.length := List.length_pos_iff.mpr hw
  cases xs with
  | cons s after =>
    simp only [Mantissa.finish, List.cons_append] at h ⊢
    split at h
    · rename_i hs
      rw [if_pos hs]
      split at h
      · rename_i hp
        rw [if_pos hp]
        exact ended_cut h
      · cases h
    · rename_i hs
      rw [if_neg hs]
      split at h
      · rename_i hd
        rw [if_pos hd]
        exact ended_cut h
      · rename_i hd
        rw [if_neg hd]
        exact ended_cut (show ended _ ((s :: after) ++ ys) _ = _ from h)
  | nil =>
    rw [List.nil_append] at h
    have hend {literal : Except LexicalCause Lexeme}
        (h : ended m.written ([] ++ ys) literal = .ok t) : ended m.written [] literal = .ok t :=
      ended_cut h
    -- a suffix would reach beyond the cut
    have hlong {s : Char} {r : List Char} {literal : Except LexicalCause Lexeme} :
        ¬ ended (m.written ++ [s]) r literal = .ok t := by
      intro h
      have hm := (more_of_ended h).2
      rw [List.length_append, List.length_singleton] at hm
      simp only [List.length_nil] at hl
      omega
    unfold Mantissa.finish at h
    split at h
    · split at h
      · split at h
        · exact absurd h hlong
        · cases h
      · split at h
        · exact absurd h hlong
        · exact hend h
    · exact hend h

/-! ## Decimal and hexadecimal numbers -/

theorem isPlain_of_mem_fraction {cs : List Char} {c : Char} (h : c ∈ fraction cs) :
    isPlain c = true := by
  unfold fraction at h
  split at h
  · split at h
    · obtain rfl | h := List.mem_cons.mp h
      · decide
      · exact isPlain_of_isDigitPart (of_mem_takeWhile h)
    · cases h
  · cases h

theorem isPlain_of_mem_exponent {cs : List Char} {c : Char} (h : c ∈ exponent cs) :
    isPlain c = true := by
  match cs with
  | [] => simp at h
  | [e] => simp at h
  | e :: s :: rest =>
    rw [exponent_cons_cons] at h
    split at h
    · rename_i he
      have hmark : isPlain e = true := by obtain rfl | rfl := he <;> decide
      split at h
      · rename_i hs
        have hsign : isPlain s = true := by obtain rfl | rfl := hs.1 <;> decide
        obtain rfl | h := List.mem_cons.mp h
        · exact hmark
        obtain rfl | h := List.mem_cons.mp h
        · exact hsign
        · exact isPlain_of_isDigitPart (of_mem_takeWhile h)
      · split at h
        · obtain rfl | h := List.mem_cons.mp h
          · exact hmark
          · exact isPlain_of_isDigitPart (of_mem_takeWhile h)
        · cases h
    · cases h

theorem isPlain_of_mem_mantissa {cs : List Char} {c : Char}
    (h : c ∈ (Mantissa.ofChars cs).written) : isPlain c = true := by
  obtain h | h := List.mem_append.mp h
  · obtain h | h := List.mem_append.mp h
    · exact isPlain_of_isDigitPart (of_mem_takeWhile h)
    · exact isPlain_of_mem_fraction h
  · exact isPlain_of_mem_exponent h

/-- The lexeme is the number that is written at the front of the text, in plain characters. -/
def TakesNumber (cs : List Char) (t : Lexeme.Taken) : Prop :=
  IsNumber t.lexeme ∧ ∃ written rest, cs = written ++ rest ∧ t.more = written.length - 1 ∧
    ∀ c ∈ written, isPlain c = true

theorem readDecimal_takes {cs : List Char} {t : Lexeme.Taken} (h : readDecimal cs = .ok t) :
    TakesNumber cs t := by
  obtain ⟨hn, suffix, after, hr, hm, hs⟩ := finish_takes h
  refine ⟨hn, (Mantissa.ofChars cs).written ++ suffix, after, ?_, hm, ?_⟩
  · rw [List.append_assoc, ← hr]
    exact (List.prefix_iff_eq_append.mp (prefix_mantissa cs)).symm
  · intro c hc
    obtain hc | hc := List.mem_append.mp hc
    · exact isPlain_of_mem_mantissa hc
    · exact hs c hc

theorem readDecimal_cut {c : Char} {t : Lexeme.Taken} (hc : isAsciiDigit c = true)
    (h : readDecimal ((c :: xs) ++ ys) = .ok t) (hl : t.more ≤ xs.length) :
    readDecimal (c :: xs) = .ok t := by
  have hw : 0 < (Mantissa.ofChars ((c :: xs) ++ ys)).written.length := by
    simp [Mantissa.ofChars, Mantissa.written, isDigitPart_of_isAsciiDigit hc]
  obtain ⟨-, suffix, -, -, hm, -⟩ := finish_takes h
  rw [List.length_append] at hm
  have hle : (Mantissa.ofChars ((c :: xs) ++ ys)).written.length ≤ (c :: xs).length := by
    rw [List.length_cons]; omega
  unfold readDecimal at h ⊢
  rw [mantissa_cut hle]
  simp only at h ⊢
  rw [drop_cut hle] at h
  refine finish_cut h ?_ (List.length_pos_iff.mp hw)
  rw [List.length_drop, List.length_cons]
  rw [List.length_cons] at hle
  omega

theorem dropWhile_cut (h : ((xs ++ ys).takeWhile p).length ≤ xs.length) :
    (xs ++ ys).dropWhile p = xs.dropWhile p ++ ys := by
  have hs : (xs ++ ys).takeWhile p ++ (xs ++ ys).dropWhile p =
      (xs ++ ys).takeWhile p ++ (xs.dropWhile p ++ ys) := by
    rw [List.takeWhile_append_dropWhile, ← takeWhile_cut h, ← List.append_assoc,
      List.takeWhile_append_dropWhile]
  exact List.append_cancel_left hs

/-- A hexadecimal number may end with the mark of a long one. -/
theorem prefix_filter_take_one (p : Char → Bool) (cs : List Char) :
    (cs.take 1).filter p <+: cs := by
  cases cs with
  | nil => simp
  | cons c rest =>
    by_cases hp : p c = true <;> simp [hp]

theorem filter_take_one_cut (h : (((xs ++ ys).take 1).filter p).length ≤ xs.length) :
    (xs.take 1).filter p = ((xs ++ ys).take 1).filter p := by
  cases xs with
  | nil => exact (List.eq_nil_of_length_eq_zero (Nat.le_zero.mp h)).symm
  | cons c xs => simp

theorem readHex_takes {mark cs : List Char} {t : Lexeme.Taken}
    (hmark : ∀ c ∈ mark, isPlain c = true) (h : readHex mark cs = .ok t) :
    TakesNumber (mark ++ cs) t := by
  obtain ⟨hl, hm⟩ := more_of_ended h
  obtain ⟨after, hafter⟩ := prefix_filter_take_one (fun c => c == 'L' || c == 'l')
    (cs.dropWhile isHexPart)
  refine ⟨?_, _, after, ?_, hm, ?_⟩
  · split at hl
    · cases hl
    · exact isNumber_of_integer hl
  · rw [List.append_assoc, List.append_assoc, hafter, List.takeWhile_append_dropWhile]
  · intro c hc
    obtain hc | hc := List.mem_append.mp hc
    · obtain hc | hc := List.mem_append.mp hc
      · exact hmark c hc
      · exact isPlain_of_isHexPart (of_mem_takeWhile hc)
    · have hL := (List.mem_filter.mp hc).2
      obtain hL | hL := Bool.or_eq_true_iff.mp hL <;> obtain rfl := beq_iff_eq.mp hL <;> decide

theorem readHex_cut {mark : List Char} {t : Lexeme.Taken} (h : readHex mark (xs ++ ys) = .ok t)
    (hl : t.more + 1 ≤ mark.length + xs.length) (hmark : mark ≠ []) :
    readHex mark xs = .ok t := by
  have hpos : 0 < mark.length := List.length_pos_iff.mpr hmark
  have hm := (more_of_ended h).2
  simp only [List.length_append] at hm
  have hrun : ((xs ++ ys).takeWhile isHexPart).length ≤ xs.length := by omega
  unfold readHex at h ⊢
  rw [← takeWhile_cut hrun, dropWhile_cut hrun] at h
  rw [← takeWhile_cut hrun, dropWhile_cut hrun] at hm
  have hlen : (xs.takeWhile isHexPart).length + (xs.dropWhile isHexPart).length = xs.length := by
    rw [← List.length_append, List.takeWhile_append_dropWhile]
  have hsuffix : (((xs.dropWhile isHexPart ++ ys).take 1).filter
      fun c => c == 'L' || c == 'l').length ≤ (xs.dropWhile isHexPart).length := by omega
  simp only at h ⊢
  rw [← filter_take_one_cut hsuffix] at h
  rw [← filter_take_one_cut hsuffix] at hsuffix
  rw [drop_cut hsuffix] at h
  exact ended_cut h

/-! ## All numbers -/

theorem readNumber_takes {c : Char} {rest : List Char} {t : Lexeme.Taken}
    (h : readNumber c rest = .ok t) : TakesNumber (c :: rest) t := by
  unfold readNumber at h
  split at h
  · rename_i x body
    split at h
    · rename_i hx
      refine readHex_takes ?_ h
      refine List.forall_mem_cons.mpr ⟨?_, List.forall_mem_singleton.mpr ?_⟩
      · rw [hx.1]; decide
      · obtain rfl | rfl := hx.2 <;> decide
    · exact readDecimal_takes h
  · exact readDecimal_takes h

theorem readNumber_cut {c : Char} {t : Lexeme.Taken} (hc : isAsciiDigit c = true)
    (h : readNumber c (xs ++ ys) = .ok t) (hl : t.more ≤ xs.length) :
    readNumber c xs = .ok t := by
  cases xs with
  | cons x body =>
    simp only [readNumber, List.cons_append] at h ⊢
    split at h
    · rename_i hx
      rw [if_pos hx]
      refine readHex_cut h ?_ (by simp)
      simp only [List.length_cons, List.length_nil] at hl ⊢
      omega
    · rename_i hx
      rw [if_neg hx]
      exact readDecimal_cut hc h hl
  | nil =>
    rw [List.nil_append] at h
    unfold readNumber at h
    split at h
    · rename_i x body
      split at h
      · -- the mark of a hexadecimal number would reach beyond the cut
        have hm := (more_of_ended h).2
        simp only [List.length_append, List.length_cons, List.length_nil] at hm hl
        omega
      · exact readDecimal_cut hc (show readDecimal ([c] ++ x :: body) = .ok t from h) hl
    · exact h

/-! ## Strings -/

/-- What stands behind the opening quote of a string, with the closing quote, and its contents. -/
inductive StringBody : List Char → List Char → Prop
  | close : StringBody ['"'] []
  | fourPlaces {a b c d x : Char} {written contents : List Char} :
      fourPlaces? a b c d = some x → StringBody written contents →
      StringBody ('\\' :: 'u' :: a :: b :: c :: d :: written) (x :: contents)
  | escape {e x : Char} {written contents : List Char} :
      e ≠ 'u' → simpleEscape? e = some x → StringBody written contents →
      StringBody ('\\' :: e :: written) (x :: contents)
  | char {c : Char} {written contents : List Char} :
      c ≠ '"' → c ≠ '\\' → StringBody written contents →
      StringBody (c :: written) (c :: contents)

theorem map_pair_eq_ok {cause : Type} {r : Except cause (List Char × Nat)} {x : Char} {k : Nat}
    {contents : List Char} {n : Nat}
    (h : (r.map fun (cs, n) => (x :: cs, n + k)) = .ok (contents, n)) :
    ∃ cs m, r = .ok (cs, m) ∧ contents = x :: cs ∧ n = m + k := by
  rcases r with _ | ⟨cs, m⟩
  · cases h
  · cases h; exact ⟨cs, m, rfl, rfl, rfl⟩

theorem stringBody_of_readString {passed : Nat} {cs contents : List Char} {n : Nat}
    (h : readString passed cs = .ok (contents, n)) :
    ∃ written rest, cs = written ++ rest ∧ n = written.length ∧ StringBody written contents := by
  fun_induction readString passed cs generalizing contents n with
  | case1 => cases h
  | case2 passed rest => cases h; exact ⟨['"'], rest, rfl, rfl, .close⟩
  | case3 passed a b c d rest x hx ih =>
    obtain ⟨_, _, hr, rfl, rfl⟩ := map_pair_eq_ok h
    obtain ⟨written, after, rfl, rfl, hb⟩ := ih hr
    exact ⟨_, after, rfl, rfl, .fourPlaces hx hb⟩
  | case4 => cases h
  | case5 => cases h
  | case6 passed e rest _ hu x hx ih =>
    obtain ⟨_, _, hr, rfl, rfl⟩ := map_pair_eq_ok h
    obtain ⟨written, after, rfl, rfl, hb⟩ := ih hr
    exact ⟨_, after, rfl, rfl, .escape hu hx hb⟩
  | case7 => cases h
  | case8 => cases h
  | case9 passed c rest hq _ _ he hl ih =>
    obtain ⟨_, _, hr, rfl, rfl⟩ := map_pair_eq_ok h
    obtain ⟨written, after, rfl, rfl, hb⟩ := ih hr
    have hc : c ≠ '\\' := by
      intro hc
      cases hrest : written ++ after with
      | nil => exact hl hc hrest
      | cons e rest => exact he e rest hc hrest
    exact ⟨_, after, rfl, rfl, .char hq hc hb⟩

theorem readString_of_stringBody {written contents : List Char} (h : StringBody written contents) :
    ∀ passed rest, readString passed (written ++ rest) = .ok (contents, written.length) := by
  induction h with
  | close => intro passed rest; simp [readString]
  | fourPlaces hx _ ih =>
    intro passed rest
    simp only [List.cons_append, readString, hx, ih]
    rfl
  | escape hu hx _ ih =>
    intro passed rest
    rw [List.cons_append, List.cons_append, readString.eq_5 _ _ _ (fun _ _ _ _ _ h => absurd h hu) hu]
    simp only [hx, ih]
    rfl
  | char hq hc _ ih =>
    intro passed rest
    rw [List.cons_append, readString.eq_7 _ _ _ hq (fun _ _ _ _ _ h => absurd h hc)
      (fun _ h => absurd h hc) (fun _ _ h => absurd h hc) (fun h => absurd h hc), ih]
    rfl

theorem readString_cut {passed : Nat} {contents : List Char} {n : Nat}
    (h : readString passed (xs ++ ys) = .ok (contents, n)) (hl : n ≤ xs.length) :
    readString passed xs = .ok (contents, n) := by
  obtain ⟨written, rest, hw, rfl, hb⟩ := stringBody_of_readString h
  have hp : written <+: xs := List.prefix_of_prefix_length_le ⟨rest, hw.symm⟩ ⟨ys, rfl⟩ hl
  obtain ⟨after, rfl⟩ := hp
  exact readString_of_stringBody hb passed after

end PipelineScript.Literal
