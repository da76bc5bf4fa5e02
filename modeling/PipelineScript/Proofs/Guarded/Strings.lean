import Mathlib
import PipelineScript.Proofs.Guarded.Scanning
import PipelineScript.Proofs.Token.Escapes

/-! # Scanning strings

A scanner counts bytes where a reader counts characters. It makes no difference for the four places
of an escape: what is more than one byte long is no digit. -/

namespace PipelineScript.Scanning

open Guarded Text Literal

variable {text before rest : List Char} {line : Nat} {tokens : List Token} {c : Char}

/-! ## Escapes of four places -/

theorem utf8Size_of_hexValue? {n : Nat} (h : hexValue? c = some n) : c.utf8Size = 1 := by
  have hrange {lo hi : Char} (hc : (lo ≤ c && c ≤ hi) = true) (hhi : hi.val ≤ 127) :
      c.utf8Size = 1 := by
    simp only [Bool.and_eq_true, decide_eq_true_eq, Char.le_def] at hc
    exact Char.utf8Size_eq_one_iff.mpr (UInt32.le_trans hc.2 hhi)
  unfold hexValue? at h
  split at h
  · exact hrange ‹_› (by decide)
  split at h
  · exact hrange ‹_› (by decide)
  split at h
  · exact hrange ‹_› (by decide)
  · cases h

theorem utf8Length_of_mapM {cs : List Char} {places : List Nat}
    (h : cs.mapM hexValue? = some places) : utf8Length cs = cs.length := by
  induction cs generalizing places with
  | nil => rfl
  | cons c cs ih =>
    rw [List.mapM_cons] at h
    cases hc : hexValue? c with
    | none => rw [hc] at h; cases h
    | some n =>
      cases hcs : cs.mapM hexValue? with
      | none => rw [hc, hcs] at h; cases h
      | some more =>
        rw [utf8Length, utf8Size_of_hexValue? hc, ih hcs, List.length_cons, Nat.add_comm]

theorem utf8Length_withoutPlus {hex : List Char}
    (h : utf8Length (withoutPlus hex) = (withoutPlus hex).length) :
    utf8Length hex = hex.length := by
  unfold withoutPlus at h
  split at h
  · rw [utf8Length, h, List.length_cons, Nat.add_comm]
    rfl
  · exact h

/-- What stands for a character takes one byte for each place. -/
theorem utf8Length_of_charOf? {hex : List Char} {x : Char} (h : charOf? hex = some x) :
    utf8Length hex = hex.length := by
  obtain ⟨_, -, h⟩ := Option.bind_eq_some_iff.mp h
  obtain ⟨places, hplaces, -⟩ := Option.bind_eq_some_iff.mp h
  exact utf8Length_withoutPlus (utf8Length_of_mapM hplaces)

theorem charOf?_four (a b c d : Char) : charOf? [a, b, c, d] = fourPlaces? a b c d := by
  unfold charOf? fourPlaces? withoutPlus
  by_cases ha : a = '+'
  · subst ha
    rfl
  · rw [if_neg ha]
    split
    · rename_i h
      exact absurd (List.cons.inj h).1 ha
    · rfl

theorem decode?_four (a b c d : Char) : decode? [a, b, c, d] = fourPlaces? a b c d := by
  rw [← charOf?_four]
  cases h : charOf? [a, b, c, d] with
  | none => rw [decode?, h, ite_self]
  | some x =>
    have hlen : utf8Length [a, b, c, d] = 4 := utf8Length_of_charOf? h
    rw [decode?, if_pos hlen, h]

theorem decode?_short {hex : List Char} (h : hex.length < 4) : decode? hex = none := by
  unfold decode?
  split
  · rename_i hlen
    cases hx : charOf? hex with
    | none => rfl
    | some x =>
      rw [utf8Length_of_charOf? hx] at hlen
      omega
  · rfl

/-! ## Strings -/

/-- The end of a scanner that reads the rest of a string, of which `contents` were written down. -/
def closing (startLine passed : Nat) (before contents : List Char) (tokens : List Token)
    (rest : List Char) : Except (Nat × LexicalCause) (List Char × Nat) →
      Except (Trap ⊕ LexicalFault) (List Char × Scanner)
  | .error (passed, cause) => .error (.inr ⟨startLine + passed, cause⟩)
  | .ok (more, n) => .ok (contents ++ more, behind (before ++ rest.take n)
      (startLine + passed + newlines (rest.take n)) tokens)

/-- A piece of the string that stands for one character. -/
theorem closing_append {startLine passed passed' : Nat} {contents : List Char} {x : Char}
    (piece : List Char) (hpassed : passed' = passed + newlines piece)
    (r : Except (Nat × LexicalCause) (List Char × Nat)) :
    closing startLine passed' (before ++ piece) (contents ++ [x]) tokens rest r =
      closing startLine passed before contents tokens (piece ++ rest)
        (r.map fun (cs, n) => (x :: cs, n + piece.length)) := by
  subst hpassed
  cases r with
  | error e => rfl
  | ok r =>
    have htake : (piece ++ rest).take (r.2 + piece.length) = piece ++ rest.take r.2 := by
      rw [Nat.add_comm, List.take_length_add_append]
    simp only [closing, Except.map, htake, newlines_append, List.append_assoc, Nat.add_assoc]
    rfl

theorem scanPlaces_behind (h : text = before ++ rest) :
    scanPlaces text (behind before line tokens) = match decode? (rest.take 4) with
      | some x => .ok (x, behind (before ++ rest.take 4) line tokens)
      | none => .error (.inr ⟨line, .unicodeEscape (String.ofList (rest.take 4))⟩) := by
  unfold scanPlaces
  rw [bind_of_ok (ahead_behind h)]
  cases decode? (rest.take 4) with
  | none => rfl
  | some x =>
    rw [behind, behind, utf8Length_append]
    rfl

theorem scanEscape_places (h : text = before ++ 'u' :: rest) :
    scanEscape text (behind before line tokens) =
      scanPlaces text (behind (before ++ ['u']) line tokens) := by
  unfold scanEscape
  rw [bind_of_ok (bump_cons h)]
  rfl

theorem scanEscape_four {a b c d : Char} (h : text = before ++ 'u' :: a :: b :: c :: d :: rest) :
    scanEscape text (behind before line tokens) = match fourPlaces? a b c d with
      | some x => .ok (x, behind (before ++ ['u', a, b, c, d]) line tokens)
      | none => .error (.inr ⟨line, .unicodeEscape (String.ofList [a, b, c, d])⟩) := by
  have hplaces : text = (before ++ ['u']) ++ a :: b :: c :: d :: rest := moved h
  have htake : (a :: b :: c :: d :: rest).take 4 = [a, b, c, d] := rfl
  rw [scanEscape_places h, scanPlaces_behind hplaces, htake, decode?_four, List.append_assoc]
  rfl

theorem scanEscape_short (h : text = before ++ 'u' :: rest) (hlen : rest.length < 4) :
    scanEscape text (behind before line tokens) =
      .error (.inr ⟨line, .unicodeEscape (String.ofList rest)⟩) := by
  have hplaces : text = (before ++ ['u']) ++ rest := moved h
  rw [scanEscape_places h, scanPlaces_behind hplaces, List.take_of_length_le (by omega),
    decode?_short hlen]

theorem scanEscape_end (h : text = before) : scanEscape text (behind before line tokens) =
    .error (.inr ⟨line, .unknownEscape none⟩) := by
  unfold scanEscape
  rw [bind_of_ok (bump_nil (by simpa using h))]
  rfl

theorem scanEscape_letter {e : Char} (h : text = before ++ e :: rest) (hu : e ≠ 'u') :
    scanEscape text (behind before line tokens) = match simpleEscape? e with
      | some x => .ok (x, behind (before ++ [e]) line tokens)
      | none => .error (.inr ⟨line, .unknownEscape (some e)⟩) := by
  unfold scanEscape
  rw [bind_of_ok (bump_cons h)]
  dsimp only
  rw [if_neg hu]
  cases simpleEscape? e with
  | none => rfl
  | some x => rfl

theorem newlines_of_fourPlaces {a b c d x : Char} (h : fourPlaces? a b c d = some x) :
    newlines [a, b, c, d] = 0 := by
  obtain ⟨values, hdigits, -⟩ := fourPlaces?_eq_some_iff_digits.mp h
  have hne : ∀ y ∈ if a = '+' then [b, c, d] else [a, b, c, d], y ≠ '\n' := by
    refine ((List.forall₂_and_left _ _).mp
      (hdigits.imp (S := fun y value => y ≠ '\n' ∧ IsHexDigit y value)
        fun y value hvalue => ⟨?_, hvalue⟩)).1
    rintro rfl
    cases hexValue?_of_isHexDigit hvalue
  refine newlines_eq_zero ?_
  by_cases ha : a = '+'
  · rw [if_pos ha] at hne
    refine List.forall_mem_cons.mpr ⟨?_, hne⟩
    rw [ha]
    decide
  · rw [if_neg ha] at hne
    exact hne

/-- A turn of the loop at a character that does not end the string. -/
theorem scanContents_cons {turns startLine : Nat} {contents : List Char}
    (h : text = before ++ c :: rest) :
    scanContents text startLine (turns + 1) contents (behind before line tokens) =
      (if c = '"' then pure contents
      else if c = '\n' then do
        countLine
        scanContents text startLine turns (contents ++ ['\n'])
      else if c = '\\' then do
        let decoded ← scanEscape text
        scanContents text startLine turns (contents ++ [decoded])
      else scanContents text startLine turns (contents ++ [c]))
        (behind (before ++ [c]) line tokens) := by
  conv_lhs => unfold scanContents
  rw [bind_of_ok (bump_cons h)]

/-- A turn at an escape that stands for a character. -/
theorem scanContents_escape {turns startLine : Nat} {contents escape : List Char} {x : Char}
    (h : text = before ++ '\\' :: rest)
    (hescape : scanEscape text (behind (before ++ ['\\']) line tokens) =
      .ok (x, behind (before ++ ['\\'] ++ escape) line tokens)) :
    scanContents text startLine (turns + 1) contents (behind before line tokens) =
      scanContents text startLine turns (contents ++ [x])
        (behind (before ++ '\\' :: escape) line tokens) := by
  rw [scanContents_cons h, if_neg (by decide), if_neg (by decide), if_pos rfl,
    bind_of_ok hescape, List.append_assoc]
  rfl

theorem scanContents_fault {turns startLine : Nat} {contents : List Char} {e : Trap ⊕ LexicalFault}
    (h : text = before ++ '\\' :: rest)
    (hescape : scanEscape text (behind (before ++ ['\\']) line tokens) = .error e) :
    scanContents text startLine (turns + 1) contents (behind before line tokens) = .error e := by
  rw [scanContents_cons h, if_neg (by decide), if_neg (by decide), if_pos rfl,
    bind_of_error hescape]

theorem length_lt_four (h : ∀ a b c d more, rest = a :: b :: c :: d :: more → False) :
    rest.length < 4 := by
  rcases rest with _ | ⟨a, _ | ⟨b, _ | ⟨c, _ | ⟨d, more⟩⟩⟩⟩
  case cons.cons.cons.cons => exact (h a b c d more rfl).elim
  all_goals simp

theorem scanContents_behind {turns : Nat} (h : text = before ++ rest) (hturns : rest.length < turns)
    (startLine passed : Nat) (contents : List Char) :
    scanContents text startLine turns contents (behind before (startLine + passed) tokens) =
      closing startLine passed before contents tokens rest (readString passed rest) := by
  obtain ⟨turns, rfl⟩ := Nat.exists_eq_add_one_of_ne_zero (Nat.ne_zero_of_lt hturns)
  fun_induction readString passed rest generalizing before turns contents with
  | case1 =>
    unfold scanContents
    rw [bind_of_ok (bump_nil h)]
    rfl
  | case2 passed rest =>
    rw [scanContents_cons h, if_pos rfl]
    simp [closing, newlines]
    rfl
  | case3 passed a b c d rest x hx ih =>
    obtain ⟨turns, rfl⟩ := Nat.exists_eq_add_one_of_ne_zero
      (Nat.ne_zero_of_lt (Nat.lt_of_succ_lt_succ hturns))
    have hescape : scanEscape text (behind (before ++ ['\\']) (startLine + passed) tokens) =
        .ok (x, behind (before ++ ['\\'] ++ ['u', a, b, c, d]) (startLine + passed) tokens) := by
      rw [scanEscape_four (moved h), hx]
    rw [scanContents_escape h hescape,
      ih (by simpa using h) _ turns (by simp only [List.length_cons] at hturns; omega)]
    refine closing_append ['\\', 'u', a, b, c, d] ?_ _
    rw [newlines_cons (by decide), newlines_cons (by decide), newlines_of_fourPlaces hx]
    rfl
  | case4 passed a b c d rest hx =>
    exact scanContents_fault h (by rw [scanEscape_four (moved h), hx])
  | case5 passed rest hshort =>
    exact scanContents_fault h (scanEscape_short (moved h) (length_lt_four hshort))
  | case6 passed e rest _ hu x hx ih =>
    obtain ⟨turns, rfl⟩ := Nat.exists_eq_add_one_of_ne_zero
      (Nat.ne_zero_of_lt (Nat.lt_of_succ_lt_succ hturns))
    have he : e ≠ '\n' := by
      rintro rfl
      cases hx
    have hescape : scanEscape text (behind (before ++ ['\\']) (startLine + passed) tokens) =
        .ok (x, behind (before ++ ['\\'] ++ [e]) (startLine + passed) tokens) := by
      rw [scanEscape_letter (moved h) hu, hx]
    rw [scanContents_escape h hescape,
      ih (by simpa using h) _ turns (by simp only [List.length_cons] at hturns; omega)]
    refine closing_append ['\\', e] ?_ _
    rw [newlines_cons (by decide), newlines_cons he]
    rfl
  | case7 passed e rest _ hu hx =>
    exact scanContents_fault h (by rw [scanEscape_letter (moved h) hu, hx])
  | case8 passed => exact scanContents_fault h (scanEscape_end (by simpa using h))
  | case9 passed c rest hq _ _ he hl ih =>
    have hc : c ≠ '\\' := by
      intro hc
      cases hrest : rest with
      | nil => exact hl hc hrest
      | cons e rest => exact he e rest hc hrest
    have hmoved : text = (before ++ [c]) ++ rest := moved h
    have hless := Nat.lt_of_succ_lt_succ hturns
    obtain ⟨turns, rfl⟩ := Nat.exists_eq_add_one_of_ne_zero (Nat.ne_zero_of_lt hless)
    rw [scanContents_cons h, if_neg hq, if_neg hc]
    by_cases hn : c = '\n'
    · rw [if_pos hn] at ih
      rw [if_pos hn, if_pos hn]
      refine (ih hmoved _ turns hless).trans ?_
      rw [hn]
      exact closing_append ['\n'] rfl _
    · rw [if_neg hn] at ih
      rw [if_neg hn, if_neg hn, ih hmoved _ turns hless]
      refine closing_append [c] ?_ _
      rw [newlines_cons hn]
      rfl

theorem scanString_behind (h : text = before ++ '"' :: rest) :
    scanString text (behind before line tokens) =
      outcome before line tokens '"' rest ((readString 0 rest).map fun (contents, n) =>
        ⟨.str (String.ofList contents), n⟩) := by
  have hmoved : text = (before ++ ['"']) ++ rest := moved h
  have hcontents : scanContents text line (turns text) []
      (behind (before ++ ['"']) line tokens) =
        closing line 0 (before ++ ['"']) [] tokens rest (readString 0 rest) :=
    scanContents_behind hmoved (lt_turns hmoved) line 0 []
  unfold scanString
  rw [bind_of_ok get_behind, bind_of_ok get_behind, bind_of_ok (bump_cons h)]
  cases hr : readString 0 rest with
  | error e =>
    rw [hr] at hcontents
    rw [line_behind, bind_of_error hcontents]
    rfl
  | ok r =>
    rw [hr] at hcontents
    rw [line_behind, bind_of_ok hcontents, List.append_assoc]
    refine (push_behind _ line _).trans ?_
    simp only [outcome, Except.map, List.singleton_append, List.nil_append,
      newlines_cons (show '"' ≠ '\n' by decide)]
    rfl

end PipelineScript.Scanning
