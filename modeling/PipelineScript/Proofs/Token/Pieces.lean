import PipelineScript.Proofs.Token.Literals
import PipelineScript.Token.Lexer

/-! # Pieces of a text

What the stretch of a text looks like that a lexeme is read from (`piece_of_read`), and that the
lexeme is read again when the text is cut behind the stretch (`read_cut`). -/

namespace PipelineScript

open Text Literal

namespace Punct

/-- The bracket that the mark opens. -/
def opened? : Punct → Option Bracket
  | openParen => some .round
  | openBracket => some .square
  | openBrace => some .curly
  | _ => none

/-- The bracket that the mark closes. -/
def closed? : Punct → Option Bracket
  | closeParen => some .round
  | closeBracket => some .square
  | closeBrace => some .curly
  | _ => none

theorem chars_of_opened? {p : Punct} {b : Bracket} (h : p.opened? = some b) :
    p.chars = [b.opening] := by
  cases p <;> cases h <;> rfl

theorem chars_of_closed? {p : Punct} {b : Bracket} (h : p.closed? = some b) :
    p.chars = [b.closing] := by
  cases p <;> cases h <;> rfl

theorem isPlain_of_mem_chars {p : Punct} (ho : p.opened? = none) (hc : p.closed? = none)
    (hs : p ≠ .slash) : ∀ c ∈ p.chars, isPlain c = true := by
  have hall : p.chars.all isPlain = true := by
    cases p <;> first | rfl | exact absurd rfl hs | (cases ho; done) | cases hc
  exact List.all_eq_true.mp hall

theorem read?_cut {c : Char} {xs ys : List Char} {p : Punct} (h : read? (c :: (xs ++ ys)) = some p)
    (hl : p.chars.length - 1 ≤ xs.length) : read? (c :: xs) = some p := by
  obtain ⟨hp, before, after, hall, hbefore⟩ := List.find?_eq_some_iff_append.mp h
  refine List.find?_eq_some_iff_append.mpr ⟨?_, before, after, hall, fun q hq => ?_⟩
  · rw [List.isPrefixOf_iff_prefix] at hp ⊢
    refine List.prefix_of_prefix_length_le hp ⟨ys, rfl⟩ ?_
    rw [List.length_cons]; omega
  · have hlong := hbefore q hq
    simp only [Bool.not_eq_true', Bool.eq_false_iff, ne_eq, List.isPrefixOf_iff_prefix] at hlong ⊢
    exact fun hshort => hlong (hshort.trans ⟨ys, rfl⟩)

end Punct

namespace Lexeme

/-- Brackets and the slash aside, and without strings, comments and line ends: what is written in
plain characters. -/
def IsPlain : Lexeme → Prop
  | punct p => p.opened? = none ∧ p.closed? = none ∧ p ≠ .slash
  | str _ | lineEnd _ | comment _ => False
  | _ => True

/-- The lexeme stands as `c :: body` in a text that goes on with `rest`. -/
inductive Piece : Char → List Char → Lexeme → List Char → Prop
  | lineFeed {rest : List Char} : Piece '\n' [] (lineEnd false) rest
  | semicolon {rest : List Char} : Piece ';' [] (lineEnd true) rest
  | lineComment {body rest : List Char} {text : String} : (∀ c ∈ body, c ≠ '\n') →
      (∀ c ∈ rest.head?, c = '\n') → Piece '/' ('/' :: body) (comment text) rest
  | blockComment {body rest : List Char} {text : String} :
      blockCommentLength? body = some body.length → Piece '/' ('*' :: body) (comment text) rest
  | str {body contents rest : List Char} {text : String} : StringBody body contents →
      Piece '"' body (str text) rest
  | opening {p : Punct} {b : Bracket} {rest : List Char} : p.opened? = some b →
      Piece b.opening [] (punct p) rest
  | closing {p : Punct} {b : Bracket} {rest : List Char} : p.closed? = some b →
      Piece b.closing [] (punct p) rest
  | slash {rest : List Char} : rest.head? ≠ some '/' → rest.head? ≠ some '*' →
      Piece '/' [] (punct .slash) rest
  | plain {c : Char} {body rest : List Char} {l : Lexeme} : l.IsPlain →
      (∀ x ∈ c :: body, isPlain x = true) → Piece c body l rest

theorem isWordPart_of_isWordStart {c : Char} (h : isWordStart c = true) :
    isWordPart c = true := by
  obtain h | h := Bool.or_eq_true_iff.mp h
  · refine Bool.or_eq_true_iff.mpr (.inl ?_)
    unfold isAlphabetic at h
    unfold isAlphanumeric
    split at h
    · rename_i hc; simp [hc, h]
    · rename_i hc; simp [hc, h]
  · exact Bool.or_eq_true_iff.mpr (.inr h)

/-- A word is written in plain characters. -/
theorem isPlain_of_mem_word {c : Char} (hc : isPlain c = true) {rest : List Char} :
    ∀ x ∈ c :: rest.takeWhile isWordPart, isPlain x = true := by
  intro x hx
  obtain rfl | hx := List.mem_cons.mp hx
  · exact hc
  · exact isPlain_of_isWordPart (of_mem_takeWhile hx)

/-! ## Block comments -/

theorem blockCommentLength?_cons (c : Char) (rest : List Char) :
    blockCommentLength? (c :: rest) =
      if c = '*' ∧ rest.head? = some '/' then some 2
      else (blockCommentLength? rest).map (· + 1) := by
  rw [blockCommentLength?.eq_def]
  split
  · rename_i h; cases h
  · rename_i h; cases h; simp
  · rename_i c rest hn h
    cases h
    rw [if_neg]
    rintro ⟨rfl, hr⟩
    obtain ⟨rest, rfl⟩ := List.head?_eq_some_iff.mp hr
    exact hn rest rfl rfl

theorem blockCommentLength?_bounds {cs : List Char} {n : Nat}
    (h : blockCommentLength? cs = some n) : 2 ≤ n ∧ n ≤ cs.length := by
  induction cs generalizing n with
  | nil => cases h
  | cons c rest ih =>
    rw [blockCommentLength?_cons] at h
    split at h
    · rename_i hc
      obtain ⟨rest, rfl⟩ := List.head?_eq_some_iff.mp hc.2
      cases h
      simp
    · obtain ⟨m, hm, rfl⟩ := Option.map_eq_some_iff.mp h
      have := ih hm
      rw [List.length_cons]; omega

theorem blockCommentLength?_cut {xs ys : List Char} {n : Nat}
    (h : blockCommentLength? (xs ++ ys) = some n) (hl : n ≤ xs.length) :
    blockCommentLength? xs = some n := by
  induction xs generalizing n with
  | nil =>
    have := (blockCommentLength?_bounds h).1
    rw [List.length_nil] at hl; omega
  | cons c xs ih =>
    rw [List.cons_append, blockCommentLength?_cons] at h
    rw [blockCommentLength?_cons]
    split at h
    · rename_i hc
      cases h
      cases xs with
      | nil => rw [List.length_singleton] at hl; omega
      | cons d xs => rw [if_pos ⟨hc.1, by simpa using hc.2⟩]
    · rename_i hc
      have hshort : ¬ (c = '*' ∧ xs.head? = some '/') := by
        rintro ⟨rfl, hx⟩
        obtain ⟨xs, rfl⟩ := List.head?_eq_some_iff.mp hx
        exact hc ⟨rfl, rfl⟩
      obtain ⟨m, hm, rfl⟩ := Option.map_eq_some_iff.mp h
      rw [if_neg hshort, ih hm (by rw [List.length_cons] at hl; omega)]
      rfl

/-! ## Reading a piece -/

theorem isPlain_word (name : String) : (word name).IsPlain := by
  unfold word
  split <;> trivial

theorem isPlain_of_isNumber {l : Lexeme} (h : IsNumber l) : l.IsPlain := by
  cases l with
  | int => trivial
  | float => trivial
  | _ => cases h

theorem lineComment_of_takeWhile (rest : List Char) {text : String} :
    Piece '/' (('/' :: rest).takeWhile (· != '\n')) (comment text)
      (('/' :: rest).dropWhile (· != '\n')) := by
  have ht : ('/' :: rest).takeWhile (· != '\n') = '/' :: rest.takeWhile (· != '\n') := by simp
  rw [ht]
  refine .lineComment (fun c hc => ?_) fun c hc => ?_
  · simpa using of_mem_takeWhile hc
  · have hd := List.head?_dropWhile_not (· != '\n') ('/' :: rest)
    rw [Option.mem_def.mp hc] at hd
    simpa using hd

theorem ok_of_mapError {α β γ : Type} {x : Except α γ} {f : α → β} {a : γ}
    (h : x.mapError f = .ok a) : x = .ok a := by
  cases x with
  | error e => cases h
  | ok b => cases h; rfl

theorem piece_of_readOperator {c : Char} {rest : List Char} {t : Taken}
    (hline : c = '/' → rest.head? ≠ some '/') (hblock : c = '/' → rest.head? ≠ some '*')
    (h : readOperator c rest = .ok t) :
    ∃ body after, rest = body ++ after ∧ t.more = body.length ∧ Piece c body t.lexeme after := by
  unfold readOperator at h
  split at h
  · rename_i p hp
    cases h
    obtain ⟨after, hafter⟩ := Punct.chars_of_read? hp
    obtain ⟨d, body, hchars⟩ : ∃ d body, p.chars = d :: body := by cases p <;> exact ⟨_, _, rfl⟩
    rw [hchars, List.cons_append] at hafter
    cases hafter
    refine ⟨body, after, rfl, by simp [hchars], ?_⟩
    cases ho : p.opened? with
    | some b =>
      rw [Punct.chars_of_opened? ho] at hchars; cases hchars
      exact .opening ho
    | none =>
      cases hc : p.closed? with
      | some b =>
        rw [Punct.chars_of_closed? hc] at hchars; cases hchars
        exact .closing hc
      | none =>
        by_cases hs : p = .slash
        · subst hs; cases hchars
          exact .slash (hline rfl) (hblock rfl)
        · exact .plain ⟨ho, hc, hs⟩ (hchars ▸ Punct.isPlain_of_mem_chars ho hc hs)
  · cases h

/-- What a lexeme is read from, and what it leaves. -/
theorem piece_of_read {c : Char} {rest : List Char} {t : Taken} (h : read c rest = .ok t) :
    ∃ body after, rest = body ++ after ∧ t.more = body.length ∧ Piece c body t.lexeme after := by
  unfold read at h
  split at h
  · rename_i hc
    cases h; subst hc
    exact ⟨[], rest, rfl, rfl, .lineFeed⟩
  split at h
  · rename_i hc
    cases h; subst hc
    exact ⟨[], rest, rfl, rfl, .semicolon⟩
  split at h
  · rename_i hc
    obtain ⟨rfl, hhead⟩ := hc
    obtain ⟨rest, rfl⟩ := List.head?_eq_some_iff.mp hhead
    cases h
    exact ⟨_, _, List.takeWhile_append_dropWhile.symm, rfl, lineComment_of_takeWhile rest⟩
  split at h
  · rename_i hc
    obtain ⟨rfl, hhead⟩ := hc
    obtain ⟨rest, rfl⟩ := List.head?_eq_some_iff.mp hhead
    split at h
    · rename_i n hn
      cases h
      rw [List.drop_succ_cons, List.drop_zero] at hn
      have hle := (blockCommentLength?_bounds hn).2
      refine ⟨'*' :: rest.take n, rest.drop n, by simp, by simp [Nat.min_eq_left hle], ?_⟩
      refine .blockComment ?_
      rw [List.length_take, Nat.min_eq_left hle]
      exact blockCommentLength?_cut (by rwa [List.take_append_drop]) (by simp [hle])
    · cases h
  split at h
  · rename_i hc
    cases h
    exact ⟨_, _, List.takeWhile_append_dropWhile.symm, rfl, .plain (isPlain_word _)
      (isPlain_of_mem_word (isPlain_of_isWordPart (isWordPart_of_isWordStart hc)))⟩
  split at h
  · rename_i hc
    cases h
    exact ⟨_, _, List.takeWhile_append_dropWhile.symm, rfl, .plain trivial
      (isPlain_of_mem_word (by rw [hc.1]; decide))⟩
  split at h
  · rename_i hc
    obtain ⟨hn, written, after, hw, hm, hp⟩ := readNumber_takes (ok_of_mapError h)
    cases written with
    | nil =>
      refine ⟨[], rest, rfl, hm, .plain (isPlain_of_isNumber hn) ?_⟩
      simpa using isPlain_of_isAsciiDigit hc
    | cons d body =>
      cases hw
      exact ⟨body, after, rfl, hm, .plain (isPlain_of_isNumber hn) hp⟩
  split at h
  · rename_i hc
    cases hs : readString 0 rest with
    | error e => rw [hs] at h; cases h
    | ok r =>
      obtain ⟨contents, n⟩ := r
      rw [hs] at h; cases h; subst hc
      obtain ⟨body, after, rfl, rfl, hb⟩ := stringBody_of_readString hs
      exact ⟨body, after, rfl, rfl, .str hb⟩
  · rename_i hline hblock _ _ _ _
    exact piece_of_readOperator (fun hc hh => hline ⟨hc, hh⟩) (fun hc hh => hblock ⟨hc, hh⟩)
      (ok_of_mapError h)

/-! ## Reading again -/

theorem any_head?_cut {xs ys : List Char} {p : Char → Bool} (h : (xs ++ ys).head?.any p)
    (hx : xs ≠ []) : xs.head?.any p := by
  cases xs with
  | nil => exact absurd rfl hx
  | cons x xs => exact h

/-- A run that begins in the text that is cut leaves something of it before the cut. -/
theorem ne_nil_of_takeWhile {xs ys : List Char} {p : Char → Bool}
    (hh : (xs ++ ys).head?.any p) (hl : ((xs ++ ys).takeWhile p).length ≤ xs.length) :
    xs ≠ [] := by
  rintro rfl
  cases ys with
  | nil => cases hh
  | cons y ys =>
    have hy : p y = true := hh
    simp [hy] at hl

theorem any_mono {o : Option Char} {p q : Char → Bool} (hpq : ∀ c, p c = true → q c = true)
    (h : o.any p) : o.any q := by
  cases o with
  | none => cases h
  | some c => exact hpq c h

theorem readOperator_cut {c : Char} {xs ys : List Char} {t : Taken}
    (h : readOperator c (xs ++ ys) = .ok t) (hl : t.more ≤ xs.length) :
    readOperator c xs = .ok t := by
  unfold readOperator at h ⊢
  split at h
  · rename_i p hp
    cases h
    rw [Punct.read?_cut hp hl]
  · cases h

/-- A lexeme is read again when the text is cut behind it. -/
theorem read_cut {c : Char} {xs ys : List Char} {t : Taken} (h : read c (xs ++ ys) = .ok t)
    (hl : t.more ≤ xs.length) : read c xs = .ok t := by
  -- a condition on the next character that fails in the long text fails in the short one
  have hneg {q : Prop} {p : Char → Bool} (hn : ¬ (q ∧ (xs ++ ys).head?.any p)) :
      ¬ (q ∧ xs.head?.any p) := by
    rintro ⟨hq, hx⟩
    exact hn ⟨hq, Literal.head?_append hx⟩
  have heq {d : Char} {zs : List Char} : zs.head? = some d ↔ zs.head?.any (· == d) := by
    cases zs <;> simp
  unfold read at h ⊢
  simp only [heq] at h ⊢
  split at h
  · rename_i hc; rw [if_pos hc]; exact h
  rename_i hn; rw [if_neg hn]
  split at h
  · rename_i hc; rw [if_pos hc]; exact h
  rename_i hn; rw [if_neg hn]
  split at h
  · rename_i hc
    cases h
    have hx := ne_nil_of_takeWhile (any_mono (by simp +contextual) hc.2) hl
    rw [if_pos ⟨hc.1, any_head?_cut hc.2 hx⟩, takeWhile_cut hl]
  rename_i hn; rw [if_neg (hneg hn)]
  split at h
  · rename_i hc
    split at h
    · rename_i n hn
      cases h
      cases xs with
      | nil => cases hl
      | cons x xs =>
        have hle : n ≤ xs.length := Nat.le_of_succ_le_succ hl
        rw [if_pos ⟨hc.1, hc.2⟩]
        simp only [List.cons_append, List.drop_succ_cons, List.drop_zero] at hn ⊢
        rw [blockCommentLength?_cut hn hle]
        simp only [List.take_succ_cons, List.take_append_of_le_length hle]
    · cases h
  rename_i hn; rw [if_neg (hneg hn)]
  split at h
  · rename_i hc
    cases h
    rw [if_pos hc, takeWhile_cut hl]
  rename_i hn; rw [if_neg hn]
  split at h
  · rename_i hc
    cases h
    have hx := ne_nil_of_takeWhile (any_mono (fun _ => isWordPart_of_isWordStart) hc.2) hl
    rw [if_pos ⟨hc.1, any_head?_cut hc.2 hx⟩, takeWhile_cut hl]
  rename_i hn; rw [if_neg (hneg hn)]
  split at h
  · rename_i hc
    rw [if_pos hc, readNumber_cut hc (ok_of_mapError h) hl]
    rfl
  rename_i hn; rw [if_neg hn]
  split at h
  · rename_i hc
    rw [if_pos hc]
    cases hs : readString 0 (xs ++ ys) with
    | error e => rw [hs] at h; cases h
    | ok r =>
      obtain ⟨contents, n⟩ := r
      rw [hs] at h; cases h
      rw [readString_cut hs hl]
      rfl
  · rename_i hn
    rw [if_neg hn, readOperator_cut (ok_of_mapError h) hl]
    rfl

end Lexeme

end PipelineScript
