import Mathlib
import PipelineScript.Proofs.Guarded.Scanner
import PipelineScript.Proofs.Token.Tiling

/-! # Scanning by bytes is scanning

As long as a scanner stands where a character begins, everything that it looks at is there. -/

namespace PipelineScript

open Guarded

namespace Scanning

/-- The scanner stands behind these characters. -/
def behind (before : List Char) (line : Nat) (tokens : List Token) : Scanner :=
  ⟨Text.utf8Length before, line, tokens⟩

variable {text before rest : List Char} {line : Nat} {tokens : List Token} {c : Char}

/-- A scanner that reads a character stands behind one more. -/
theorem moved (h : text = before ++ c :: rest) : text = (before ++ [c]) ++ rest := by
  rw [h, List.append_assoc, List.singleton_append]

@[simp] theorem pos_behind : (behind before line tokens).pos = Text.utf8Length before := rfl

@[simp] theorem line_behind : (behind before line tokens).line = line := rfl

/-! ## Characters -/

theorem get_behind : (get : Scanning Scanner) (behind before line tokens) =
    .ok (behind before line tokens, behind before line tokens) := rfl

theorem ahead_behind (h : text = before ++ rest) :
    ahead text (behind before line tokens) = .ok (rest, behind before line tokens) := by
  unfold ahead
  rw [bind_of_ok get_behind, behind, h, Text.onward?_utf8Length]
  rfl

theorem peek_behind (h : text = before ++ rest) :
    peek text (behind before line tokens) = .ok (rest.head?, behind before line tokens) := by
  unfold peek
  rw [bind_of_ok (ahead_behind h)]
  rfl

theorem peekNth_behind (h : text = before ++ rest) (n : Nat) :
    peekNth text n (behind before line tokens) = .ok (rest[n]?, behind before line tokens) := by
  unfold peekNth
  rw [bind_of_ok (ahead_behind h)]
  rfl

theorem bump_cons (h : text = before ++ c :: rest) :
    bump text (behind before line tokens) = .ok (some c, behind (before ++ [c]) line tokens) := by
  unfold bump
  rw [bind_of_ok (peek_behind h), behind, behind, Text.utf8Length_append]
  rfl

theorem bump_nil (h : text = before ++ []) :
    bump text (behind before line tokens) = .ok (none, behind before line tokens) := by
  unfold bump
  rw [bind_of_ok (peek_behind h)]
  rfl

theorem stretch_behind {mid : List Char} (h : text = before ++ (mid ++ rest)) (s : Scanner) :
    stretch text (Text.utf8Length before) (Text.utf8Length (before ++ mid)) s = .ok (mid, s) := by
  unfold stretch
  rw [h, Text.utf8Length_append, Text.between?_middle]
  rfl

theorem since_behind {mid : List Char} (h : text = before ++ (mid ++ rest)) :
    since text (Text.utf8Length before) (behind (before ++ mid) line tokens) =
      .ok (mid, behind (before ++ mid) line tokens) := by
  unfold since
  rw [bind_of_ok get_behind]
  exact stretch_behind h _

/-- There is a turn for every character ahead, and one to spare. -/
theorem lt_turns (h : text = before ++ rest) : rest.length < turns text := by
  rw [turns, h, List.length_append]
  omega

theorem passWhile_behind (p : Char → Bool) {turns : Nat} (h : text = before ++ rest)
    (hturns : rest.length < turns) : passWhile text p turns (behind before line tokens) =
      .ok ((), behind (before ++ rest.takeWhile p) line tokens) := by
  induction turns generalizing before rest with
  | zero => exact absurd hturns (Nat.not_lt_zero _)
  | succ turns ih =>
    unfold passWhile
    rw [bind_of_ok (peek_behind h)]
    cases rest with
    | nil => rw [List.takeWhile_nil, List.append_nil]; rfl
    | cons c rest =>
      rw [List.takeWhile_cons]
      cases hp : p c with
      | true =>
        show (if p c = true then _ else _ : Scanning Unit) _ = _
        rw [if_pos hp, bind_of_ok (bump_cons h), ih (by simpa using h) (by simpa using hturns)]
        simp
      | false =>
        show (if p c = true then _ else _ : Scanning Unit) _ = _
        rw [if_neg (by simp [hp])]
        simp
        rfl

/-! ## Comments -/

theorem countLineOf_behind (c : Char) : countLineOf c (behind before line tokens) =
    .ok ((), behind before (line + Text.newlines [c]) tokens) := by
  unfold countLineOf
  split
  · rename_i hc
    rw [Text.newlines, if_pos hc]
    rfl
  · rename_i hc
    rw [Text.newlines, if_neg hc]
    rfl

theorem passBlockComment_behind {turns : Nat} (h : text = before ++ rest)
    (hturns : rest.length < turns) : passBlockComment text turns (behind before line tokens) =
      match Lexeme.blockCommentLength? rest with
      | some n =>
        .ok (true, behind (before ++ rest.take n) (line + Text.newlines (rest.take n)) tokens)
      | none => .ok (false, behind (before ++ rest) (line + Text.newlines rest) tokens) := by
  induction turns generalizing before rest line with
  | zero => exact absurd hturns (Nat.not_lt_zero _)
  | succ turns ih =>
    unfold passBlockComment
    cases rest with
    | nil =>
      rw [bind_of_ok (bump_nil h), List.append_nil]
      rfl
    | cons c rest =>
      have hmoved : text = (before ++ [c]) ++ rest := by rw [h, List.append_assoc]; rfl
      rw [bind_of_ok (bump_cons h)]
      dsimp only
      rw [bind_of_ok (countLineOf_behind c), bind_of_ok (peek_behind hmoved),
        Lexeme.blockCommentLength?_cons]
      by_cases hend : c = '*' ∧ rest.head? = some '/'
      · obtain ⟨rest, rfl⟩ := List.head?_eq_some_iff.mp hend.2
        rw [if_pos hend, if_pos hend, bind_of_ok (bump_cons hmoved)]
        rw [hend.1]
        simp
        rfl
      · rw [if_neg hend, if_neg hend, ih hmoved (by simpa using hturns)]
        cases Lexeme.blockCommentLength? rest with
        | none => simp [Text.newlines, Nat.add_assoc]
        | some n => simp [Text.newlines, Nat.add_assoc]

/-! ## What a token leaves behind -/

theorem push_behind (lexeme : Lexeme) (startLine : Nat) (mid : List Char) :
    push lexeme startLine (Text.utf8Length before) (behind (before ++ mid) line tokens) =
      .ok ((), behind (before ++ mid) line (tokens ++ [⟨lexeme, startLine, Text.utf8Length before,
        Text.utf8Length before + Text.utf8Length mid⟩])) := by
  rw [← Text.utf8Length_append]
  rfl

/-- The end of a scanner that reads one lexeme, the first character of which is `c`. -/
def outcome (before : List Char) (line : Nat) (tokens : List Token) (c : Char) (rest : List Char) :
    Except (Nat × LexicalCause) Lexeme.Taken → Except (Trap ⊕ LexicalFault) (Unit × Scanner)
  | .error (passed, cause) => .error (.inr ⟨line + passed, cause⟩)
  | .ok taken =>
    let mid := c :: rest.take taken.more
    .ok ((), behind (before ++ mid) (line + Text.newlines mid) (tokens ++ [⟨taken.lexeme, line,
      Text.utf8Length before, Text.utf8Length before + Text.utf8Length mid⟩]))

theorem newlines_cons {c : Char} (hc : c ≠ '\n') (cs : List Char) :
    Text.newlines (c :: cs) = Text.newlines cs := by
  rw [Text.newlines, if_neg hc, Nat.zero_add]

theorem newlines_eq_zero {cs : List Char} (h : ∀ c ∈ cs, c ≠ '\n') : Text.newlines cs = 0 := by
  induction cs with
  | nil => rfl
  | cons c cs ih =>
    obtain ⟨hc, hcs⟩ := List.forall_mem_cons.mp h
    rw [newlines_cons hc, ih hcs]

theorem newlines_takeWhile {p : Char → Bool} (hp : p '\n' = false) (cs : List Char) :
    Text.newlines (cs.takeWhile p) = 0 := by
  refine newlines_eq_zero ?_
  rintro c hc rfl
  rw [Literal.of_mem_takeWhile hc] at hp
  cases hp

theorem scanComment_line (h : text = before ++ '/' :: '/' :: rest) :
    scanComment text (behind before line tokens) =
      outcome before line tokens '/' ('/' :: rest) (Lexeme.read '/' ('/' :: rest)) := by
  have hmoved : text = (before ++ ['/', '/']) ++ rest := by simpa using h
  have hmid : text = before ++ (('/' :: '/' :: rest.takeWhile (· != '\n')) ++
      rest.dropWhile (· != '\n')) := by
    rw [h, List.cons_append, List.cons_append, List.takeWhile_append_dropWhile]
  have hread : Lexeme.read '/' ('/' :: rest) = .ok ⟨.comment (String.ofList
      ('/' :: '/' :: rest.takeWhile (· != '\n'))), (rest.takeWhile (· != '\n')).length + 1⟩ := by
    simp [Lexeme.read]
  have hnewlines : Text.newlines ('/' :: '/' :: rest.takeWhile (· != '\n')) = 0 := by
    rw [newlines_cons (by decide), newlines_cons (by decide), newlines_takeWhile (by decide)]
  unfold scanComment
  rw [bind_of_ok get_behind, bind_of_ok get_behind, bind_of_ok (bump_cons h),
    bind_of_ok (bump_cons (by rw [h, List.append_assoc]; rfl)), if_pos rfl]
  simp only [pos_behind, line_behind, List.append_assoc, List.cons_append, List.nil_append]
  rw [bind_of_ok (passWhile_behind _ hmoved (lt_turns hmoved))]
  simp only [List.append_assoc, List.cons_append, List.nil_append]
  rw [bind_of_ok (since_behind hmid), push_behind, hread, outcome]
  simp only [List.take_succ_cons, Lexeme.take_takeWhile, hnewlines]
  rfl

theorem scanComment_block (h : text = before ++ '/' :: '*' :: rest) :
    scanComment text (behind before line tokens) =
      outcome before line tokens '/' ('*' :: rest) (Lexeme.read '/' ('*' :: rest)) := by
  have hmoved : text = (before ++ ['/', '*']) ++ rest := by simpa using h
  have hpass : passBlockComment text _ (behind _ line tokens) = _ :=
    passBlockComment_behind hmoved (lt_turns hmoved)
  unfold scanComment
  rw [bind_of_ok get_behind, bind_of_ok get_behind, bind_of_ok (bump_cons h),
    bind_of_ok (bump_cons (by rw [h, List.append_assoc]; rfl)), if_neg (by decide)]
  simp only [pos_behind, line_behind, List.append_assoc, List.cons_append, List.nil_append]
  cases hend : Lexeme.blockCommentLength? rest with
  | none =>
    have hread : Lexeme.read '/' ('*' :: rest) = .error (0, .unterminatedComment) := by
      simp [Lexeme.read, hend]
    rw [hend] at hpass
    rw [bind_of_ok hpass, hread]
    rfl
  | some n =>
    have hread : Lexeme.read '/' ('*' :: rest) =
        .ok ⟨.comment (String.ofList ('/' :: '*' :: rest.take n)), n + 1⟩ := by
      simp [Lexeme.read, hend]
    have hmid : text = before ++ (('/' :: '*' :: rest.take n) ++ rest.drop n) := by
      rw [h, List.cons_append, List.cons_append, List.take_append_drop]
    rw [hend] at hpass
    rw [bind_of_ok hpass, if_pos rfl]
    simp only [List.append_assoc, List.cons_append, List.nil_append]
    rw [bind_of_ok (since_behind hmid), push_behind, hread, outcome]
    simp only [List.take_succ_cons]
    rw [newlines_cons (by decide), newlines_cons (by decide)]

/-! ## Words -/

theorem newlines_wordPart (cs : List Char) :
    Text.newlines (cs.takeWhile Literal.isWordPart) = 0 := newlines_takeWhile (by decide) cs

/-- The characters of the word that were passed are a dollar sign or none. -/
theorem wordStart_behind (system : Bool) :
    wordStart system (behind (before ++ if system then ['$'] else []) line tokens) =
      .ok (Text.utf8Length before,
        behind (before ++ if system then ['$'] else []) line tokens) := by
  unfold wordStart
  rw [bind_of_ok get_behind]
  cases system with
  | true =>
    have hpos : Text.utf8Length (before ++ ['$']) = Text.utf8Length before + 1 :=
      Text.utf8Length_append before ['$']
    simp only [if_true, pos_behind, hpos]
    exact minus_eq (Nat.le_add_left _ _)
  | false =>
    simp only [Bool.false_eq_true, if_false, List.append_nil]
    rfl

theorem scanWord_behind (system : Bool)
    (h : text = (before ++ if system then ['$'] else []) ++ rest) :
    let word := (if system then ['$'] else []) ++ rest.takeWhile Literal.isWordPart
    scanWord text system (behind (before ++ if system then ['$'] else []) line tokens) =
      .ok ((), behind (before ++ word) line (tokens ++ [⟨if system then
          .systemIdent (String.ofList word) else Lexeme.word (String.ofList word), line,
          Text.utf8Length before, Text.utf8Length before + Text.utf8Length word⟩])) := by
  intro word
  have hword : text = before ++ (word ++ rest.dropWhile Literal.isWordPart) := by
    rw [h, List.append_assoc, List.append_assoc, List.takeWhile_append_dropWhile]
  unfold scanWord
  rw [bind_of_ok (wordStart_behind system), bind_of_ok (passWhile_behind _ h (lt_turns h)),
    List.append_assoc, bind_of_ok (since_behind hword), bind_of_ok get_behind]
  exact push_behind _ line word

/-- A name that begins with its first character. -/
theorem scanWord_name (h : text = before ++ c :: rest) (hc : Literal.isWordPart c = true)
    (hne : c ≠ '\n') : scanWord text false (behind before line tokens) =
      outcome before line tokens c rest (.ok ⟨Lexeme.word (String.ofList
        (c :: rest.takeWhile Literal.isWordPart)),
        (rest.takeWhile Literal.isWordPart).length⟩) := by
  have hword := @scanWord_behind text before (c :: rest) line tokens false (by simpa using h)
  simp only [Bool.false_eq_true, if_false, List.append_nil, List.nil_append,
    List.takeWhile_cons_of_pos hc] at hword
  rw [hword, outcome]
  simp only [Lexeme.take_takeWhile, newlines_cons hne, newlines_wordPart]
  rfl

/-- A name behind its dollar sign. -/
theorem scanWord_system (h : text = before ++ '$' :: rest) :
    scanWord text true (behind (before ++ ['$']) line tokens) =
      outcome before line tokens '$' rest (.ok ⟨.systemIdent (String.ofList
        ('$' :: rest.takeWhile Literal.isWordPart)),
          (rest.takeWhile Literal.isWordPart).length⟩) := by
  have hword := @scanWord_behind text before rest line tokens true (by simpa using h)
  simp only [if_true, List.cons_append, List.nil_append] at hword
  rw [hword, outcome]
  simp only [Lexeme.take_takeWhile, newlines_cons (show '$' ≠ '\n' by decide), newlines_wordPart]
  rfl

end Scanning

end PipelineScript
