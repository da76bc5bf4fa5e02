import Mathlib
import PipelineScript.Proofs.Statement.Comments

/-! # Where tokens stand

The tokens of a text lie side by side in it, and only blanks lie between them. Main statement:
`Token.ofSource_tiles`. The induction goes along the text and keeps what has been passed, from which
the offset and the line of the next token are counted. -/

namespace PipelineScript

open Text

namespace Lexeme

/-- The lexeme keeps its spelling. Numbers keep their value and strings their contents. -/
def IsVerbatim : Lexeme → Prop
  | int _ | float _ | str _ => False
  | _ => True

theorem not_isVerbatim_of_isNumber {l : Lexeme} (h : Literal.IsNumber l) : ¬ l.IsVerbatim := by
  cases l with
  | int => exact id
  | float => exact id
  | _ => cases h

theorem text_word (name : String) : (word name).text = name := by
  unfold word
  split
  · rename_i k hk
    exact Keyword.text_of_ofText? hk
  · rfl

theorem take_takeWhile (p : Char → Bool) (cs : List Char) :
    cs.take (cs.takeWhile p).length = cs.takeWhile p :=
  (List.prefix_iff_eq_take.mp (List.takeWhile_prefix p)).symm

theorem text_of_readOperator {c : Char} {rest : List Char} {t : Taken}
    (h : readOperator c rest = .ok t) : t.lexeme.text = String.ofList (c :: rest.take t.more) := by
  unfold readOperator at h
  split at h
  · rename_i p hp
    cases h
    obtain ⟨d, body, hchars⟩ : ∃ d body, p.chars = d :: body := by cases p <;> exact ⟨_, _, rfl⟩
    obtain ⟨after, hafter⟩ := Punct.chars_of_read? hp
    rw [hchars, List.cons_append] at hafter
    cases hafter
    simp [text, Punct.text, hchars]
  · cases h

/-- The spelling of a lexeme is the stretch that it is read from. -/
theorem text_of_read {c : Char} {rest : List Char} {t : Taken} (h : read c rest = .ok t)
    (hv : t.lexeme.IsVerbatim) : t.lexeme.text = String.ofList (c :: rest.take t.more) := by
  unfold read at h
  split at h
  · rename_i hc
    cases h; subst hc; rfl
  split at h
  · rename_i hc
    cases h; subst hc; rfl
  split at h
  · cases h
    rw [take_takeWhile]; rfl
  split at h
  · split at h <;> cases h
    rfl
  split at h
  · cases h
    rw [take_takeWhile]; exact text_word _
  split at h
  · cases h
    rw [take_takeWhile]; rfl
  split at h
  · obtain ⟨hn, -⟩ := Literal.readNumber_takes (ok_of_mapError h)
    exact absurd hv (not_isVerbatim_of_isNumber hn)
  split at h
  · rename_i hc
    cases hs : Literal.readString 0 rest with
    | error e => rw [hs] at h; cases h
    | ok r => rw [hs] at h; cases h; exact hv.elim
  · exact text_of_readOperator (ok_of_mapError h)

end Lexeme

namespace Token

/-- The tokens of a text, of which `passed` lies behind and the rest ahead. -/
inductive Tiles : List Char → List Char → List Token → Prop
  | done {passed : List Char} : Tiles passed [] []
  | space {passed rest : List Char} {c : Char} {ts : List Token} :
      isSpace c = true → Tiles (passed ++ [c]) rest ts → Tiles passed (c :: rest) ts
  | token {passed piece rest : List Char} {l : Lexeme} {ts : List Token} :
      piece ≠ [] → (l.IsVerbatim → l.text = String.ofList piece) → Tiles (passed ++ piece) rest ts →
      Tiles passed (piece ++ rest)
        (⟨l, 1 + newlines passed, utf8Length passed, utf8Length (passed ++ piece)⟩ :: ts)

theorem tiles_of_scan {passed rest : List Char} {ts : List Token}
    (h : scan (1 + newlines passed) (utf8Length passed) rest = .ok ts) : Tiles passed rest ts := by
  induction hn : rest.length using Nat.strongRecOn generalizing passed rest ts with
  | ind n ih =>
    subst hn
    cases rest with
    | nil => rw [scan] at h; cases h; exact .done
    | cons c rest =>
      rw [scan] at h
      split at h
      · rename_i hs
        refine .space hs (ih rest.length (Nat.lt_succ_self _) ?_ rfl)
        have hc : newlines [c] = 0 := by
          have hne : c ≠ '\n' := by rintro rfl; cases hs
          simp [newlines, hne]
        rw [newlines_append, utf8Length_append, hc]
        exact h
      · split at h
        · cases h
        · rename_i t ht
          obtain ⟨body, after, rfl, hm, -⟩ := Lexeme.piece_of_read ht
          have htext := Lexeme.text_of_read ht
          simp only [hm, List.take_left, List.drop_left] at h htext
          split at h
          · cases h
          · rename_i tokens hrec
            cases h
            have hlt : after.length < (c :: (body ++ after)).length := by
              rw [List.length_cons, List.length_append]; omega
            rw [Nat.add_assoc, ← newlines_append, ← utf8Length_append] at hrec
            rw [← List.cons_append, ← utf8Length_append]
            exact .token (List.cons_ne_nil c body) htext (ih after.length hlt hrec rfl)

theorem utf8Length_pos {cs : List Char} (h : cs ≠ []) : 0 < utf8Length cs := by
  cases cs with
  | nil => exact absurd rfl h
  | cons c cs => exact Nat.add_pos_left (Char.utf8Size_pos c) _

namespace Tiles

variable {passed rest : List Char} {ts : List Token}

theorem passed_le_start (h : Tiles passed rest ts) : ∀ t ∈ ts, utf8Length passed ≤ t.start := by
  induction h with
  | done => exact List.forall_mem_nil _
  | space _ _ ih =>
    intro t ht
    have := ih t ht
    rw [utf8Length_append] at this
    omega
  | token _ _ _ ih =>
    refine List.forall_mem_cons.mpr ⟨Nat.le_refl _, fun t ht => ?_⟩
    have := ih t ht
    rw [utf8Length_append] at this
    omega

theorem pairwise (h : Tiles passed rest ts) :
    ts.Pairwise fun t u => t.start < u.start ∧ t.stop ≤ u.start := by
  induction h with
  | done => exact .nil
  | space _ _ ih => exact ih
  | token hne _ hrest ih =>
    refine .cons (fun u hu => ?_) ih
    have hle := hrest.passed_le_start u hu
    have hpos := utf8Length_pos hne
    refine ⟨?_, hle⟩
    rw [utf8Length_append] at hle
    show utf8Length _ < u.start
    omega

/-- Each token stands at a stretch of the text. -/
theorem exists_piece (h : Tiles passed rest ts) :
    ∀ t ∈ ts, ∃ before piece after, passed ++ rest = before ++ piece ++ after ∧ piece ≠ [] ∧
      t.start = utf8Length before ∧ t.stop = utf8Length (before ++ piece) ∧
      t.line = 1 + newlines before ∧
      (t.lexeme.IsVerbatim → t.lexeme.text = String.ofList piece) := by
  induction h with
  | done => exact List.forall_mem_nil _
  | space _ _ ih => simpa using ih
  | @token passed piece rest l ts hne htext _ ih =>
    refine List.forall_mem_cons.mpr ⟨⟨passed, piece, rest, ?_, hne, rfl, rfl, rfl, htext⟩, ?_⟩
    · rw [List.append_assoc]
    · simpa using ih

/-- A character that no token covers is a blank. -/
theorem isSpace_of_uncovered (h : Tiles passed rest ts) {more after : List Char} {c : Char}
    (hrest : rest = more ++ c :: after)
    (hout : ∀ t ∈ ts, ¬ (t.start ≤ utf8Length (passed ++ more) ∧
      utf8Length (passed ++ more) < t.stop)) : isSpace c = true := by
  induction h generalizing more with
  | done => simp at hrest
  | space hs _ ih =>
    cases more with
    | nil => cases hrest; exact hs
    | cons x more =>
      cases hrest
      exact ih rfl (by simpa using hout)
  | @token passed piece rest l ts hne _ _ ih =>
    obtain ⟨hfirst, hothers⟩ := List.forall_mem_cons.mp hout
    obtain ⟨further, rfl, hfurther⟩ | ⟨inside, rfl, hinside⟩ := List.append_eq_append_iff.mp hrest
    · exact ih hfurther (by simpa using hothers)
    · cases inside with
      | nil =>
        have hnext : rest = [] ++ c :: after := hinside.symm
        exact ih hnext (by simpa using hothers)
      | cons d inside =>
        -- the character lies inside the first token
        refine absurd ⟨?_, ?_⟩ hfirst
        · show utf8Length passed ≤ _
          rw [utf8Length_append]; exact Nat.le_add_right _ _
        · rw [← List.append_assoc, utf8Length_append (passed ++ more)]
          exact Nat.lt_add_of_pos_right (utf8Length_pos (List.cons_ne_nil d inside))

end Tiles

/-- The tokens of a text stand at stretches of it that follow each other without overlapping, on the
line that the line feeds before them say, and with the spelling that they have there. A character
between them is white space and no line feed. -/
theorem ofSource_tiles {source : String} {tokens : List Token} (h : ofSource source = .ok tokens) :
    (∀ t ∈ tokens, ∃ before piece after, source.toList = before ++ piece ++ after ∧
      t.start = utf8Length before ∧ t.stop = utf8Length (before ++ piece) ∧ t.start < t.stop ∧
      t.line = 1 + newlines before ∧
      (t.lexeme.IsVerbatim →
        t.lexeme.text = String.ofList (slice t.start t.stop source.toList))) ∧
    tokens.Pairwise (fun t u => t.start < u.start ∧ t.stop ≤ u.start) ∧
    ∀ before c after, source.toList = before ++ c :: after →
      (∀ t ∈ tokens, ¬ (t.start ≤ utf8Length before ∧ utf8Length before < t.stop)) →
      isBlank c = true ∧ c ≠ '\n' := by
  have hscan : scan (1 + newlines []) (utf8Length []) source.toList = .ok tokens :=
    (ofSource_eq_ok.mp h).2
  have htiles := tiles_of_scan hscan
  refine ⟨fun t ht => ?_, htiles.pairwise, fun before c after hsource hout => ?_⟩
  · obtain ⟨before, piece, after, hsource, hne, hstart, hstop, hline, htext⟩ :=
      htiles.exists_piece t ht
    rw [List.nil_append] at hsource
    refine ⟨before, piece, after, hsource, hstart, hstop, ?_, hline, fun hv => ?_⟩
    · rw [hstart, hstop, utf8Length_append]
      exact Nat.lt_add_of_pos_right (utf8Length_pos hne)
    · rw [htext hv, hsource, hstart, hstop, utf8Length_append, slice_middle]
  · have hs := htiles.isSpace_of_uncovered hsource hout
    simpa [isSpace, and_comm] using hs

/-- A string and a comment of two lines each, behind letters of two bytes. -/
theorem ofSource_tiles_multiline :
    let source := "\u00e9 = \"\u00fc\n\\n\" /*\n*/;x"
    let tokens : List Token := [
      ⟨.ident "\u00e9", 1, 0, 2⟩, ⟨.punct .assign, 1, 3, 4⟩, ⟨.str "\u00fc\n\n", 1, 5, 12⟩,
      ⟨.comment "/*\n*/", 2, 13, 18⟩, ⟨.lineEnd true, 3, 18, 19⟩, ⟨.ident "x", 3, 19, 20⟩]
    ofSource source = .ok tokens ∧
      (⟨.ident "x", 3, 19, 20⟩ : Token).lexeme.text = String.ofList (slice 19 20 source.toList) ∧
      ∀ before c after, source.toList = before ++ c :: after →
        (∀ t ∈ tokens, ¬ (t.start ≤ utf8Length before ∧ utf8Length before < t.stop)) →
        isBlank c = true ∧ c ≠ '\n' := by
  intro source tokens
  have h : ofSource source = .ok tokens := by cbv
  obtain ⟨hplaces, -, hgaps⟩ := ofSource_tiles h
  obtain ⟨_, _, _, -, -, -, -, -, htext⟩ := hplaces ⟨.ident "x", 3, 19, 20⟩ (by decide)
  exact ⟨h, htext trivial, hgaps⟩

end Token

end PipelineScript
