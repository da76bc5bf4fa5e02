import PipelineScript.Proofs.Token.Slices

/-! # Joined texts

Where the second of two texts starts with a character that carries nothing on, the joined text has
the tokens of the first and behind them those of the second (`Token.scan_append`). In a new place
the tokens of a text are the same ones, moved (`Token.scan_shift`). -/

namespace PipelineScript

open Text

namespace Literal

variable {xs ys : List Char} {z : Char} {p : Char → Bool}

/-- No lexeme that ends before the character would go on with it. -/
def isBoundary (z : Char) : Bool :=
  !(isWordPart z || ['.', '<', '=', '&', '|', '>', '/', '*', '+', '-'].contains z)

/-- The characters that some lexeme looks for behind its first one. -/
theorem ne_of_isBoundary {d : Char} (hz : isBoundary z = true) (hd : isBoundary d = false) :
    z ≠ d := by
  rintro rfl
  rw [hz] at hd
  cases hd

theorem isWordPart_of_isBoundary (hz : isBoundary z = true) : isWordPart z = false :=
  (Bool.or_eq_false_iff.mp (Bool.not_eq_eq_eq_not.mp hz)).1

theorem isAlphanumeric_of_isBoundary (hz : isBoundary z = true) : isAlphanumeric z = false :=
  (Bool.or_eq_false_iff.mp (isWordPart_of_isBoundary hz)).1

theorem isAsciiDigit_of_isBoundary (hz : isBoundary z = true) : isAsciiDigit z = false := by
  cases hd : isAsciiDigit z with
  | false => rfl
  | true =>
    rw [← isAlphanumeric_of_isBoundary hz, isAlphanumeric_of_isAsciiDigit hd]

theorem isDigitPart_of_isBoundary (hz : isBoundary z = true) : isDigitPart z = false :=
  Bool.or_eq_false_iff.mpr ⟨isAsciiDigit_of_isBoundary hz,
    (Bool.or_eq_false_iff.mp (isWordPart_of_isBoundary hz)).2⟩

theorem isHexPart_of_isBoundary (hz : isBoundary z = true) : isHexPart z = false := by
  refine Bool.or_eq_false_iff.mpr ⟨?_, (Bool.or_eq_false_iff.mp (isWordPart_of_isBoundary hz)).2⟩
  cases hd : isHexDigit z with
  | false => rfl
  | true => rw [← isAlphanumeric_of_isBoundary hz, isAlphanumeric_of_isHexDigit hd]

/-! ## Runs of characters -/

theorem takeWhile_join (hz : p z = false) (xs ys : List Char) :
    (xs ++ z :: ys).takeWhile p = xs.takeWhile p := by
  induction xs with
  | nil => simp [hz]
  | cons x xs ih => cases hx : p x <;> simp [hx, ih]

theorem dropWhile_join (hz : p z = false) (xs ys : List Char) :
    (xs ++ z :: ys).dropWhile p = xs.dropWhile p ++ z :: ys := by
  induction xs with
  | nil => simp [hz]
  | cons x xs ih => cases hx : p x <;> simp [hx, ih]

theorem any_head?_join (hz : p z = false) (xs ys : List Char) :
    (xs ++ z :: ys).head?.any p = xs.head?.any p := by
  cases xs with
  | nil => exact hz
  | cons x xs => rfl

/-! ## Numbers -/

variable (hz : isBoundary z = true)
include hz

theorem fraction_join (xs ys : List Char) : fraction (xs ++ z :: ys) = fraction xs := by
  have hdot : z ≠ '.' := ne_of_isBoundary hz (by decide)
  match xs with
  | [] => cases ys <;> simp [fraction_cons_cons, hdot]
  | [c] => simp [fraction_cons_cons, isAsciiDigit_of_isBoundary hz]
  | c :: d :: rest =>
    rw [List.cons_append, List.cons_append, fraction_cons_cons, fraction_cons_cons,
      ← List.cons_append, takeWhile_join (isDigitPart_of_isBoundary hz)]

theorem exponent_join (xs ys : List Char) : exponent (xs ++ z :: ys) = exponent xs := by
  have hdigit := isAsciiDigit_of_isBoundary hz
  have hpart := isDigitPart_of_isBoundary hz
  match xs with
  | [] =>
    have hmark : ¬ (z = 'e' ∨ z = 'E') :=
      not_or.mpr ⟨ne_of_isBoundary hz (by decide), ne_of_isBoundary hz (by decide)⟩
    cases ys <;> simp [exponent_cons_cons, hmark]
  | [e] =>
    have hsign : ¬ (z = '+' ∨ z = '-') :=
      not_or.mpr ⟨ne_of_isBoundary hz (by decide), ne_of_isBoundary hz (by decide)⟩
    simp [exponent_cons_cons, hsign, hdigit]
  | e :: s :: rest =>
    rw [List.cons_append, List.cons_append, exponent_cons_cons, exponent_cons_cons,
      any_head?_join hdigit, takeWhile_join hpart, ← List.cons_append, takeWhile_join hpart]

theorem mantissa_join (xs ys : List Char) :
    Mantissa.ofChars (xs ++ z :: ys) = Mantissa.ofChars xs := by
  have hlen := (prefix_mantissa xs).length_le
  simp only [Mantissa.written, Mantissa.ofChars, List.length_append] at hlen ⊢
  rw [takeWhile_join (isDigitPart_of_isBoundary hz), drop_cut (by omega), fraction_join hz,
    drop_cut (by omega), exponent_join hz]

theorem ended_join (written xs ys : List Char) (literal : Except LexicalCause Lexeme) :
    ended written (xs ++ z :: ys) literal = ended written xs literal := by
  have ht : trailing (xs ++ z :: ys) = trailing xs :=
    takeWhile_join (isWordPart_of_isBoundary hz) xs ys
  rw [ended, ended, ht]

theorem finish_join (m : Mantissa) (xs ys : List Char) :
    m.finish (xs ++ z :: ys) = m.finish xs := by
  cases xs with
  | nil =>
    have hlong : ¬ (z = 'L' ∨ z = 'l') :=
      not_or.mpr ⟨ne_of_isBoundary hz (by decide), ne_of_isBoundary hz (by decide)⟩
    have hfloat : ¬ (z = 'D' ∨ z = 'd' ∨ z = 'F' ∨ z = 'f') := by
      refine not_or.mpr ⟨?_, not_or.mpr ⟨?_, not_or.mpr ⟨?_, ?_⟩⟩⟩ <;>
        exact ne_of_isBoundary hz (by decide)
    simp only [Mantissa.finish, List.nil_append, if_neg hlong, if_neg hfloat]
    exact ended_join hz _ [] ys _
  | cons s after =>
    have hrest (literal : Except LexicalCause Lexeme) :
        ended m.written (s :: (after ++ z :: ys)) literal = ended m.written (s :: after) literal :=
      ended_join hz _ (s :: after) ys literal
    simp only [Mantissa.finish, List.cons_append, ended_join hz, hrest]

theorem readDecimal_join (xs ys : List Char) :
    readDecimal (xs ++ z :: ys) = readDecimal xs := by
  simp only [readDecimal, mantissa_join hz]
  rw [drop_cut (prefix_mantissa xs).length_le, finish_join hz]

theorem readHex_join (mark xs ys : List Char) :
    readHex mark (xs ++ z :: ys) = readHex mark xs := by
  have hpart := isHexPart_of_isBoundary hz
  simp only [readHex, takeWhile_join hpart, dropWhile_join hpart]
  generalize xs.dropWhile isHexPart = rest
  cases rest with
  | nil =>
    have hlong : (z == 'L' || z == 'l') = false := by
      simp [ne_of_isBoundary hz (show isBoundary 'L' = false by decide),
        ne_of_isBoundary hz (show isBoundary 'l' = false by decide)]
    have hsuffix : List.filter (fun c => c == 'L' || c == 'l') (([] ++ z :: ys).take 1) = [] := by
      simp [hlong]
    rw [hsuffix]
    exact ended_join hz _ [] ys _
  | cons s after =>
    have hsuffix : ((s :: after ++ z :: ys).take 1) = (s :: after).take 1 := by simp
    rw [hsuffix, drop_cut (prefix_filter_take_one _ (s :: after)).length_le, ended_join hz]

theorem readNumber_join (c : Char) (xs ys : List Char) :
    readNumber c (xs ++ z :: ys) = readNumber c xs := by
  cases xs with
  | nil =>
    have hx : ¬ (c = '0' ∧ (z = 'x' ∨ z = 'X')) := by
      rintro ⟨-, h | h⟩
      · exact ne_of_isBoundary hz (by decide) h
      · exact ne_of_isBoundary hz (by decide) h
    simp only [readNumber, List.nil_append, if_neg hx]
    exact readDecimal_join hz [c] ys
  | cons x body =>
    have hdecimal := readDecimal_join hz (c :: x :: body) ys
    simp only [List.cons_append] at hdecimal
    simp only [readNumber, List.cons_append, readHex_join hz, hdecimal]

end Literal

open Literal

namespace Punct

/-- What an operator goes on with is no boundary. -/
theorem isBoundary_of_mem_tail (p : Punct) : ∀ d ∈ p.chars.tail, isBoundary d = false := by
  cases p <;> simp [chars, isBoundary]

theorem isPrefixOf_join {z : Char} {word : List Char} (hz : z ∉ word) (xs ys : List Char) :
    word.isPrefixOf (xs ++ z :: ys) = word.isPrefixOf xs := by
  induction word generalizing xs with
  | nil => simp
  | cons d word ih =>
    rw [List.mem_cons, not_or] at hz
    cases xs with
    | nil => simp [List.isPrefixOf_cons_cons, Ne.symm hz.1]
    | cons x xs => simp [List.isPrefixOf_cons_cons, ih hz.2]

theorem read?_join {z : Char} (hz : isBoundary z = true) (c : Char) (xs ys : List Char) :
    read? (c :: (xs ++ z :: ys)) = read? (c :: xs) := by
  unfold read?
  congr 1
  funext p
  obtain ⟨d, word, hp⟩ : ∃ d word, p.chars = d :: word := by cases p <;> exact ⟨_, _, rfl⟩
  have hword : z ∉ word := fun hmem => by
    have hd := p.isBoundary_of_mem_tail z (by rw [hp]; exact hmem)
    rw [hz] at hd
    cases hd
  rw [hp, List.isPrefixOf_cons_cons, List.isPrefixOf_cons_cons, isPrefixOf_join hword]

end Punct

namespace Lexeme

theorem blockCommentLength?_join {xs : List Char} {n : Nat} (h : blockCommentLength? xs = some n)
    (ys : List Char) : blockCommentLength? (xs ++ ys) = some n := by
  induction xs generalizing n with
  | nil => cases h
  | cons c xs ih =>
    rw [List.cons_append, blockCommentLength?_cons]
    rw [blockCommentLength?_cons] at h
    split at h
    · rename_i hc
      obtain ⟨xs, rfl⟩ := List.head?_eq_some_iff.mp hc.2
      rw [if_pos ⟨hc.1, rfl⟩]
      exact h
    · rename_i hc
      obtain ⟨m, hm, rfl⟩ := Option.map_eq_some_iff.mp h
      rw [ih hm, if_neg]
      · rfl
      · rintro ⟨hstar, hslash⟩
        cases xs with
        | nil => cases hm
        | cons d xs => exact hc ⟨hstar, hslash⟩

/-- A lexeme is read again when the text goes on behind it. A line comment that the text ends with
is carried on by everything but a line feed. -/
theorem read_join {c z : Char} {xs ys : List Char} {t : Taken} (hz : isBoundary z = true)
    (h : read c xs = .ok t)
    (hend : t.lexeme.isComment = true → xs.head? ≠ some '*' → t.more = xs.length → z = '\n') :
    read c (xs ++ z :: ys) = .ok t := by
  have heq {d : Char} {zs : List Char} : zs.head? = some d ↔ zs.head?.any (· == d) = true := by
    cases zs <;> simp
  have hhead {d : Char} (hd : isBoundary d = false) :
      (xs ++ z :: ys).head?.any (· == d) = xs.head?.any (· == d) :=
    any_head?_join (by simpa using ne_of_isBoundary hz hd) xs ys
  have hslash := hhead (show isBoundary '/' = false by decide)
  have hstar := hhead (show isBoundary '*' = false by decide)
  have hstart : (xs ++ z :: ys).head?.any isWordStart = xs.head?.any isWordStart := by
    refine any_head?_join ?_ xs ys
    cases hw : isWordStart z with
    | false => rfl
    | true => rw [← isWordPart_of_isBoundary hz, isWordPart_of_isWordStart hw]
  unfold read at h ⊢
  simp only [heq, hslash, hstar, hstart] at h ⊢
  split at h
  · rename_i hc; rw [if_pos hc]; exact h
  rename_i hn; rw [if_neg hn]
  split at h
  · rename_i hc; rw [if_pos hc]; exact h
  rename_i hn; rw [if_neg hn]
  split at h
  · rename_i hc
    cases h
    rw [if_pos hc]
    have hbody : (xs ++ z :: ys).takeWhile (· != '\n') = xs.takeWhile (· != '\n') := by
      rw [List.takeWhile_append]
      split
      · rename_i hl
        obtain rfl := hend rfl (fun hblock => by cases hblock.symm.trans (heq.mpr hc.2)) hl
        rw [(List.takeWhile_prefix _).eq_of_length hl]
        simp
      · rfl
    rw [hbody]
  rename_i hn; rw [if_neg hn]
  split at h
  · rename_i hc
    rw [if_pos hc]
    split at h
    · rename_i n hn
      cases h
      cases xs with
      | nil => cases hn
      | cons x xs =>
        simp only [List.cons_append, List.drop_succ_cons, List.drop_zero] at hn ⊢
        have hle := (blockCommentLength?_bounds hn).2
        rw [blockCommentLength?_join hn]
        simp only [List.take_succ_cons, List.take_append_of_le_length hle]
    · cases h
  rename_i hn; rw [if_neg hn]
  split at h
  · rename_i hc
    rw [if_pos hc, takeWhile_join (isWordPart_of_isBoundary hz)]
    exact h
  rename_i hn; rw [if_neg hn]
  split at h
  · rename_i hc
    rw [if_pos hc, takeWhile_join (isWordPart_of_isBoundary hz)]
    exact h
  rename_i hn; rw [if_neg hn]
  split at h
  · rename_i hc
    rw [if_pos hc, readNumber_join hz]
    exact h
  rename_i hn; rw [if_neg hn]
  split at h
  · rename_i hc
    rw [if_pos hc]
    cases hs : readString 0 xs with
    | error e => rw [hs] at h; cases h
    | ok r =>
      obtain ⟨contents, n⟩ := r
      rw [hs] at h; cases h
      obtain ⟨written, after, rfl, rfl, hb⟩ := stringBody_of_readString hs
      rw [List.append_assoc, readString_of_stringBody hb]
      rfl
  · rename_i hn
    rw [if_neg hn, readOperator, Punct.read?_join hz]
    exact h

/-- Behind a boundary, the text may go on in another way. -/
theorem read_onward {c z : Char} {xs ys : List Char} {t : Taken} (hz : isBoundary z = true)
    (h : read c (xs ++ z :: ys) = .ok t) (hl : t.more ≤ xs.length) (ys' : List Char) :
    read c (xs ++ z :: ys') = .ok t := by
  refine read_join hz (read_cut h hl) fun hcomment hblock hmore => ?_
  obtain ⟨body, after, hbody, hm, hpiece⟩ := piece_of_read h
  obtain ⟨rfl, rfl⟩ := List.append_inj hbody (hmore.symm.trans hm)
  -- only a line comment is left, which ends before a line feed
  generalize t.lexeme = l at hcomment hpiece
  cases hpiece with
  | lineComment _ hend => exact hend z rfl
  | blockComment => exact absurd rfl hblock
  | plain hplain =>
    cases l with
    | comment => cases hplain
    | _ => cases hcomment
  | _ => cases hcomment

end Lexeme

namespace Token

/-- The token of a text that is moved down by some lines and on by some bytes. -/
def shift (lines bytes : Nat) (t : Token) : Token :=
  ⟨t.lexeme, t.line + lines, t.start + bytes, t.stop + bytes⟩

@[simp] theorem lexeme_shift (lines bytes : Nat) (t : Token) :
    (t.shift lines bytes).lexeme = t.lexeme := rfl

theorem map_shift_zero (ts : List Token) : ts.map (shift 0 0) = ts := List.map_id ts

theorem scan_cons {c : Char} {body rest : List Char} {l : Lexeme} (hs : isSpace c = false)
    (hr : Lexeme.read c (body ++ rest) = .ok ⟨l, body.length⟩) {line offset : Nat}
    {ts : List Token}
    (h : scan (line + newlines (c :: body)) (offset + utf8Length (c :: body)) rest = .ok ts) :
    scan line offset (c :: (body ++ rest)) =
      .ok (⟨l, line, offset, offset + utf8Length (c :: body)⟩ :: ts) := by
  rw [scan, if_neg (Bool.eq_false_iff.mp hs)]
  simp only [hr, List.take_left, List.drop_left, h]

theorem scan_shift {line offset : Nat} {cs : List Char} {ts : List Token}
    (h : scan line offset cs = .ok ts) (lines bytes : Nat) :
    scan (line + lines) (offset + bytes) cs = .ok (ts.map (shift lines bytes)) := by
  fun_induction scan line offset cs generalizing ts with
  | case1 => cases h; rw [scan]; rfl
  | case2 line offset c rest hs ih =>
    rw [scan, if_pos hs, Nat.add_right_comm]
    exact ih h
  | case3 => cases h
  | case4 => cases h
  | case5 line offset c rest hs t hr body stop tokens hrec =>
    rename_i ih
    cases h
    obtain ⟨body', after, rfl, hm, -⟩ := Lexeme.piece_of_read hr
    have hbody : body = body' := by simp only [body, hm, List.take_left]
    rw [hbody, hm, List.drop_left] at ih
    have hmoved := ih (by rwa [hbody, hm, List.drop_left] at hrec)
    rw [Nat.add_right_comm] at hmoved
    have hstop : stop + bytes = offset + bytes + utf8Length (c :: body') := by
      simp only [stop, hbody]; omega
    rw [hstop] at hmoved
    rw [scan_cons (Bool.eq_false_iff.mpr hs) (by rw [hr, ← hm]) hmoved, List.map_cons, ← hstop]
    rfl

/-- The tokens of a text and behind them those of a second one. The first may end with a line
comment if the second starts on a new line. -/
theorem scan_append {line offset : Nat} {xs ys : List Char} {z : Char} {ts us : List Token}
    (hz : isBoundary z = true) (h : scan line offset xs = .ok ts)
    (hend : z = '\n' ∨ ∀ t ∈ ts.getLast?, t.lexeme.isComment = false)
    (hrest : scan (line + newlines xs) (offset + utf8Length xs) (z :: ys) = .ok us) :
    scan line offset (xs ++ z :: ys) = .ok (ts ++ us) := by
  fun_induction scan line offset xs generalizing ts with
  | case1 => cases h; exact hrest
  | case2 line offset c rest hs ih =>
    have hc : c ≠ '\n' := by
      rintro rfl
      cases hs
    rw [List.cons_append, scan, if_pos hs]
    refine ih h hend ?_
    simpa only [newlines, utf8Length, if_neg hc, Nat.zero_add, Nat.add_assoc] using hrest
  | case3 => cases h
  | case4 => cases h
  | case5 line offset c rest hs t hr body stop tokens hrec =>
    rename_i ih
    cases h
    obtain ⟨body', after, rfl, hm, -⟩ := Lexeme.piece_of_read hr
    have hbody : body = body' := by simp only [body, hm, List.take_left]
    have hstop : stop = offset + utf8Length (c :: body') := by simp only [stop, hbody]
    rw [hbody, hstop, hm, List.drop_left] at ih hrec
    rw [← List.cons_append, newlines_append, utf8Length_append, ← Nat.add_assoc,
      ← Nat.add_assoc] at hrest
    have hlast : z = '\n' ∨ ∀ t ∈ tokens.getLast?, t.lexeme.isComment = false := by
      refine hend.imp_right fun hcomment u hu => hcomment u ?_
      rw [Option.mem_def] at hu ⊢
      rw [List.getLast?_cons, hu]
      rfl
    have hread : Lexeme.read c (body' ++ (after ++ z :: ys)) = .ok ⟨t.lexeme, body'.length⟩ := by
      rw [← List.append_assoc, ← hm]
      refine Lexeme.read_join hz hr fun hcomment _ hlen => ?_
      -- the comment is the last token, because nothing is left behind it
      have ha : after = [] := by
        rw [hm, List.length_append] at hlen
        exact List.eq_nil_of_length_eq_zero (by omega)
      subst ha
      rw [scan] at hrec
      cases hrec
      rcases hend with hnl | hplain
      · exact hnl
      · have hno : t.lexeme.isComment = false := hplain _ rfl
        cases hcomment.symm.trans hno
    rw [List.cons_append, List.append_assoc, hstop,
      scan_cons (Bool.eq_false_iff.mpr hs) hread (ih hrec hlast hrest)]
    rfl

end Token

end PipelineScript
