import Mathlib
import PipelineScript.Proofs.Guarded.Numbers
import PipelineScript.Proofs.Guarded.Strings

/-! # Scanning a text

Token by token, a scanner that goes by bytes finds what the running one finds, and it comes to the
end. -/

namespace PipelineScript.Scanning

open Guarded Text

variable {text before rest : List Char} {line : Nat} {tokens : List Token} {c : Char}

theorem newlines_mark (p : Punct) : newlines p.chars = 0 := by cases p <;> rfl

theorem scanOperator_behind (h : text = before ++ c :: rest) :
    scanOperator text (behind before line tokens) = outcome before line tokens c rest
      ((Lexeme.readOperator c rest).mapError fun cause => (0, cause)) := by
  unfold scanOperator Lexeme.readOperator
  rw [bind_of_ok get_behind, bind_of_ok (ahead_behind h)]
  cases hp : Punct.read? (c :: rest) with
  | none =>
    dsimp only
    rw [bind_of_ok (peek_behind h)]
    rfl
  | some p =>
    obtain ⟨after, hafter⟩ := Punct.chars_of_read? hp
    obtain ⟨d, body, hchars⟩ : ∃ d body, p.chars = d :: body := by cases p <;> exact ⟨_, _, rfl⟩
    have hnewlines := newlines_mark p
    rw [hchars] at hafter hnewlines
    obtain ⟨rfl, rfl⟩ := List.cons.inj hafter
    have htake : (body ++ after).take (p.chars.length - 1) = body := by simp [hchars]
    show push (.punct p) line (utf8Length before)
      ⟨utf8Length before + utf8Length p.chars, line, tokens⟩ =
        outcome before line tokens d (body ++ after) (.ok ⟨.punct p, p.chars.length - 1⟩)
    rw [outcome, htake, hnewlines, hchars, ← utf8Length_append, Nat.add_zero]
    rfl

theorem beginsComment_iff :
    (c = '/' ∧ (rest.head?.any fun d => d == '/' || d == '*') = true) ↔
      (c = '/' ∧ rest.head? = some '/') ∨ (c = '/' ∧ rest.head? = some '*') := by
  cases rest with
  | nil => simp
  | cons d rest => simp [and_or_left]

/-- A character is a blank, or a token begins with it. -/
theorem scanOne_behind (h : text = before ++ c :: rest) :
    scanOne text c (behind before line tokens) =
      if isSpace c then .ok ((), behind (before ++ [c]) line tokens)
      else outcome before line tokens c rest (Lexeme.read c rest) := by
  unfold scanOne Lexeme.read
  rw [bind_of_ok get_behind]
  by_cases hn : c = '\n'
  · subst hn
    rw [if_pos rfl, if_neg (by decide), if_pos rfl, bind_of_ok (bump_cons h), bind_of_ok get_behind]
    rw [pos_behind, line_behind, bind_of_ok (push_behind _ _ _)]
    rfl
  rw [if_neg hn, if_neg hn]
  by_cases hs : c = ';'
  · subst hs
    rw [if_pos rfl, if_neg (by decide), if_pos rfl, bind_of_ok (bump_cons h), bind_of_ok get_behind]
    exact push_behind _ _ _
  rw [if_neg hs, if_neg hs]
  by_cases hb : isBlank c = true
  · have hspace : isSpace c = true := by simp [isSpace, hn, hb]
    rw [if_pos hb, if_pos hspace, bind_of_ok (bump_cons h)]
    rfl
  have hspace : ¬ isSpace c = true := by simp [isSpace, hb]
  rw [if_neg hb, if_neg hspace, bind_of_ok (peekNth_behind h 1)]
  have hnext : (c :: rest)[1]? = rest.head? := by cases rest <;> rfl
  rw [hnext]
  by_cases hline : c = '/' ∧ rest.head? = some '/'
  · obtain ⟨rest, rfl⟩ := List.head?_eq_some_iff.mp hline.2
    obtain rfl := hline.1
    rw [if_pos (by simp), scanComment_line h]
    simp [Lexeme.read]
  by_cases hblock : c = '/' ∧ rest.head? = some '*'
  · obtain ⟨rest, rfl⟩ := List.head?_eq_some_iff.mp hblock.2
    obtain rfl := hblock.1
    rw [if_pos (by simp), scanComment_block h]
    simp [Lexeme.read]
  have hcomment : ¬ (c = '/' ∧ (rest.head?.any fun d => d == '/' || d == '*') = true) :=
    fun h => (beginsComment_iff.mp h).elim hline hblock
  rw [if_neg hcomment, if_neg hline, if_neg hblock]
  by_cases hw : Lexeme.isWordStart c = true
  · rw [if_pos hw, if_pos hw]
    exact scanWord_name h (Lexeme.isWordPart_of_isWordStart hw) hn
  rw [if_neg hw, if_neg hw]
  rw [bind_of_ok (peekNth_behind h 1), hnext]
  by_cases hd : c = '$' ∧ rest.head?.any Lexeme.isWordStart = true
  · obtain ⟨rfl, hd⟩ := hd
    rw [if_pos ⟨rfl, hd⟩, if_pos ⟨rfl, hd⟩, bind_of_ok (bump_cons h)]
    exact scanWord_system h
  rw [if_neg hd, if_neg hd]
  by_cases hdigit : isAsciiDigit c = true
  · rw [if_pos hdigit, if_pos hdigit]
    exact scanNumber_behind h hdigit
  rw [if_neg hdigit, if_neg hdigit]
  by_cases hq : c = '"'
  · subst hq
    rw [if_pos rfl, if_pos rfl]
    exact scanString_behind h
  rw [if_neg hq, if_neg hq]
  exact scanOperator_behind h

theorem scanAll_behind {turns : Nat} (h : text = before ++ rest) (hturns : rest.length < turns) :
    scanAll text turns (behind before line tokens) =
      match Token.scan line (utf8Length before) rest with
      | .error fault => .error (.inr fault)
      | .ok more => .ok ((), behind text (line + newlines rest) (tokens ++ more)) := by
  induction turns generalizing before rest line tokens with
  | zero => exact absurd hturns (Nat.not_lt_zero _)
  | succ turns ih =>
    unfold scanAll
    rw [bind_of_ok (peek_behind h)]
    cases rest with
    | nil =>
      rw [List.append_nil] at h
      rw [Token.scan, h]
      show Except.ok ((), behind before line tokens) = _
      simp [newlines]
    | cons c rest =>
      have hone : scanOne text c (behind before line tokens) = _ := scanOne_behind h
      rw [Token.scan]
      dsimp only [List.head?_cons]
      by_cases hs : isSpace c = true
      · have hmoved : text = (before ++ [c]) ++ rest := moved h
        rw [if_pos hs] at hone ⊢
        rw [bind_of_ok hone, ih hmoved (by simpa using hturns), utf8Length_append,
          newlines_cons (show c ≠ '\n' by rintro rfl; cases hs)]
        rfl
      · rw [if_neg hs] at hone ⊢
        cases hread : Lexeme.read c rest with
        | error e =>
          rw [hread] at hone
          rw [bind_of_error hone]
        | ok taken =>
          rw [hread] at hone
          have hmoved : text = (before ++ c :: rest.take taken.more) ++ rest.drop taken.more := by
            rw [List.append_assoc, List.cons_append, List.take_append_drop, h]
          have hlines : newlines (c :: rest) = newlines (c :: rest.take taken.more) +
              newlines (rest.drop taken.more) := by
            rw [← newlines_append, List.cons_append, List.take_append_drop]
          rw [bind_of_ok hone, ih hmoved (by simp at hturns ⊢; omega), utf8Length_append, hlines,
            Nat.add_assoc]
          dsimp only
          cases Token.scan (line + newlines (c :: rest.take taken.more)) (utf8Length before +
              utf8Length (c :: rest.take taken.more)) (rest.drop taken.more) with
          | error fault => rfl
          | ok more => simp

theorem tokenize_eq (text : List Char) : tokenize text = sure (Token.ofChars text) := by
  unfold tokenize Token.ofChars
  cases Balance.check text with
  | error fault => rfl
  | ok _ =>
    have hscan : scanAll text (turns text) (behind [] 1 []) = _ :=
      scanAll_behind (List.nil_append text).symm (Nat.lt_succ_self _)
    show ((scanAll text (turns text) (behind [] 1 [])).bind fun r => Except.ok r.2.tokens) =
      sure (Token.scan 1 (utf8Length []) text)
    rw [hscan]
    cases Token.scan 1 (utf8Length []) text with
    | error fault => rfl
    | ok tokens => rfl

end PipelineScript.Scanning
