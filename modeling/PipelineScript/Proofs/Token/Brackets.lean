import Mathlib
import PipelineScript.Proofs.Token.Nesting

/-! # Balanced texts

What the walk over the characters of a text promises: its brackets form a nested word, said by a
grammar and without a stack, and its strings end (`check_agrees_with_scan`). -/

namespace PipelineScript

open Text Literal

namespace Lexeme

/-- Words of brackets that nest. -/
inductive Nested : List Punct → Prop
  | nil : Nested []
  | round {inner after : List Punct} : Nested inner → Nested after →
      Nested (.openParen :: (inner ++ .closeParen :: after))
  | square {inner after : List Punct} : Nested inner → Nested after →
      Nested (.openBracket :: (inner ++ .closeBracket :: after))
  | curly {inner after : List Punct} : Nested inner → Nested after →
      Nested (.openBrace :: (inner ++ .closeBrace :: after))

/-- The lexeme, if it is a bracket. -/
def bracket? : Lexeme → Option Punct
  | punct p =>
    if p ∈ [.openParen, .closeParen, .openBracket, .closeBracket, .openBrace, .closeBrace] then
      some p
    else none
  | _ => none

/-- The mark that opens a bracket, and the one that closes it. -/
def openMark : Bracket → Punct
  | .round => .openParen | .square => .openBracket | .curly => .openBrace

def closeMark : Bracket → Punct
  | .round => .closeParen | .square => .closeBracket | .curly => .closeBrace

theorem bracket?_of_opened {l : Lexeme} {b : Bracket} (h : l.opened? = some b) :
    l.bracket? = some (openMark b) := by
  cases l with
  | punct p => cases p <;> cases h <;> rfl
  | _ => cases h

theorem bracket?_of_closed {l : Lexeme} {b : Bracket} (h : l.closed? = some b) :
    l.bracket? = some (closeMark b) := by
  cases l with
  | punct p => cases p <;> cases h <;> rfl
  | _ => cases h

theorem bracket?_of_none {l : Lexeme} (ho : l.opened? = none) (hc : l.closed? = none) :
    l.bracket? = none := by
  cases l with
  | punct p => cases p <;> first | rfl | (cases ho; done) | cases hc
  | _ => rfl

theorem Nested.pair {inner after : List Punct} (b : Bracket) (h : Nested inner)
    (h' : Nested after) : Nested (openMark b :: (inner ++ closeMark b :: after)) := by
  cases b
  · exact h.round h'
  · exact h.square h'
  · exact h.curly h'

theorem Nested.append {word word' : List Punct} (h : Nested word) (h' : Nested word') :
    Nested (word ++ word') := by
  induction h with
  | nil => exact h'
  | round hi _ _ ih => simpa using hi.round ih
  | square hi _ _ ih => simpa using hi.square ih
  | curly hi _ _ ih => simpa using hi.curly ih

/-! ## The stack and the grammar -/

/-- The word closes the open brackets, the innermost first, with nested words before, between and
after the closing ones. -/
def Closes : List Bracket → List Punct → Prop
  | [], word => Nested word
  | b :: stack, word =>
    ∃ inner after, word = inner ++ closeMark b :: after ∧ Nested inner ∧ Closes stack after

theorem Closes.append {stack : List Bracket} {word word' : List Punct} (h : Nested word)
    (h' : Closes stack word') : Closes stack (word ++ word') := by
  cases stack with
  | nil => exact h.append h'
  | cons b stack =>
    obtain ⟨inner, after, rfl, hi, ha⟩ := h'
    exact ⟨word ++ inner, after, by simp, h.append hi, ha⟩

theorem closes_of_nest {stack : List Bracket} {ls : List Lexeme} (h : nest stack ls = some []) :
    Closes stack (ls.filterMap bracket?) := by
  induction ls generalizing stack with
  | nil => cases h; exact .nil
  | cons l ls ih =>
    obtain ⟨open_, hl, hls⟩ := Option.bind_eq_some_iff.mp h
    have hrest := ih hls
    cases ho : l.opened? with
    | some b =>
      rw [nestOne_of_opened ho] at hl
      cases hl
      obtain ⟨inner, after, hword, hi, ha⟩ := hrest
      rw [List.filterMap_cons_some (bracket?_of_opened ho), hword]
      simpa using Closes.append (hi.pair b .nil) ha
    | none =>
      cases hc : l.closed? with
      | some b =>
        rw [nestOne_of_closed hc] at hl
        subst hl
        rw [List.filterMap_cons_some (bracket?_of_closed hc)]
        exact ⟨[], _, rfl, .nil, hrest⟩
      | none =>
        rw [nestOne_of_none ho hc] at hl
        cases hl
        rwa [List.filterMap_cons_none (bracket?_of_none ho hc)]

/-- Only the brackets among some lexemes matter. -/
theorem nest_brackets (stack : List Bracket) (ls : List Lexeme) :
    nest stack ((ls.filterMap bracket?).map punct) = nest stack ls := by
  induction ls generalizing stack with
  | nil => rfl
  | cons l ls ih =>
    cases hb : l.bracket? with
    | none =>
      have ho : l.opened? = none := by
        rw [Option.eq_none_iff_forall_ne_some]
        intro b ho
        rw [bracket?_of_opened ho] at hb
        cases hb
      have hc : l.closed? = none := by
        rw [Option.eq_none_iff_forall_ne_some]
        intro b hc
        rw [bracket?_of_closed hc] at hb
        cases hb
      rw [List.filterMap_cons_none hb, ih, nest_cons, nestOne_of_none ho hc, Option.bind_some]
    | some p =>
      have hl : l = punct p := by
        unfold bracket? at hb
        split at hb
        · split at hb <;> cases hb
          rfl
        · cases hb
      rw [List.filterMap_cons_some hb, List.map_cons, nest_cons, nest_cons, hl]
      simp only [ih]

theorem Nested.nest {word : List Punct} (h : Nested word) (stack : List Bracket) :
    nest stack (word.map punct) = some stack := by
  have hpair {b : Bracket} {inner after : List Punct}
      (hi : ∀ stack, Lexeme.nest stack (inner.map punct) = some stack)
      (ha : ∀ stack, Lexeme.nest stack (after.map punct) = some stack) (stack : List Bracket) :
      Lexeme.nest stack ((openMark b :: (inner ++ closeMark b :: after)).map punct) =
        some stack := by
    have ho : (punct (openMark b)).opened? = some b := by cases b <;> rfl
    have hc : (punct (closeMark b)).closed? = some b := by cases b <;> rfl
    rw [List.map_cons, nest_cons, nestOne_of_opened ho, Option.bind_some, List.map_append,
      nest_append, hi, Option.bind_some, List.map_cons, nest_cons,
      (nestOne_of_closed hc).mpr rfl, Option.bind_some, ha]
  induction h generalizing stack with
  | nil => rfl
  | round _ _ hi ha => exact hpair (b := .round) hi ha stack
  | square _ _ hi ha => exact hpair (b := .square) hi ha stack
  | curly _ _ hi ha => exact hpair (b := .curly) hi ha stack

theorem nest_eq_nil_iff {ls : List Lexeme} :
    nest [] ls = some [] ↔ Nested (ls.filterMap bracket?) := by
  constructor
  · exact closes_of_nest
  · intro h
    rw [← nest_brackets]
    exact h.nest []

end Lexeme

/-- The brackets among some tokens. -/
def Token.brackets (ts : List Token) : List Punct := ts.filterMap fun t => t.lexeme.bracket?

namespace Balance

open Lexeme

/-! ## Strings that do not end -/

theorem ne_unterminated_of_readNumber {c : Char} {rest : List Char} {cause : LexicalCause}
    (h : readNumber c rest = .error cause) : cause ≠ .unterminatedString := by
  have hinteger {value : Nat} {cause cause' : LexicalCause}
      (h : integer value cause = .error cause') : cause' = cause := by
    unfold integer at h
    split at h <;> cases h
    rfl
  have hended {written rest : List Char} {literal : Except LexicalCause Lexeme}
      {cause : LexicalCause} (hl : ∀ cause, literal = .error cause → cause ≠ .unterminatedString)
      (h : ended written rest literal = .error cause) : cause ≠ .unterminatedString := by
    unfold ended at h
    split at h
    · cases h; simp
    · cases literal with
      | error cause' => cases h; exact hl _ rfl
      | ok l => cases h
  have hint {m : Mantissa} {written : List Char} (cause : LexicalCause)
      (h : m.int written = .error cause) : cause ≠ .unterminatedString := by
    rw [hinteger h]; simp
  have hdecimal {cs : List Char} (h : readDecimal cs = .error cause) :
      cause ≠ .unterminatedString := by
    have hnumber {m : Mantissa} {written : List Char} (cause : LexicalCause)
        (h : (if m.isPlain then m.int written else .ok m.float) = .error cause) :
        cause ≠ .unterminatedString := by
      split at h
      · exact hint cause h
      · cases h
    simp only [readDecimal, Mantissa.finish] at h
    split at h
    · split at h
      · split at h
        · exact hended hint h
        · cases h; simp
      · split at h
        · exact hended (fun _ h => by cases h) h
        · exact hended hnumber h
    · exact hended hnumber h
  unfold readNumber at h
  split at h
  · split at h
    · refine hended (fun cause h => ?_) h
      split at h
      · cases h; simp
      · rw [hinteger h]; simp
    · exact hdecimal h
  · exact hdecimal h

/-- Only a string is an unterminated string. -/
theorem readString_of_unterminated {c : Char} {rest : List Char} {passed : Nat}
    (h : read c rest = .error (passed, .unterminatedString)) :
    c = '"' ∧ readString 0 rest = .error (passed, .unterminatedString) := by
  unfold Lexeme.read at h
  iterate 3 (split at h; · cases h)
  split at h
  · split at h <;> cases h
  iterate 2 (split at h; · cases h)
  split at h
  · cases hn : readNumber c rest with
    | ok t => rw [hn] at h; cases h
    | error cause =>
      rw [hn] at h
      cases h
      exact absurd rfl (ne_unterminated_of_readNumber hn)
  split at h
  · rename_i hc
    cases hs : readString 0 rest with
    | ok r => rw [hs] at h; cases h
    | error fault => rw [hs] at h; cases h; exact ⟨hc, rfl⟩
  · unfold readOperator at h
    split at h <;> cases h

/-- A string that does not end keeps the walk until the end of the text. -/
theorem foldlM_of_unterminated {passed passed' : Nat} {cs : List Char}
    (h : readString passed cs = .error (passed', .unterminatedString)) {s : State}
    {openedOn : Nat} (hm : s.mode = .string openedOn) :
    ∃ s', cs.foldlM step s = .ok s' ∧ s'.mode = .string openedOn := by
  have hmap {r : Except (Nat × LexicalCause) (List Char × Nat)}
      {f : List Char × Nat → List Char × Nat} {fault : Nat × LexicalCause}
      (h : r.map f = .error fault) : r = .error fault := by
    cases r with
    | error fault' => cases h; rfl
    | ok r => cases h
  fun_induction readString passed cs generalizing s with
  | case1 => exact ⟨s, rfl, hm⟩
  | case2 => cases h
  | case3 passed a b c d rest x hx ih =>
    obtain ⟨s₁, hs₁, hm₁, -⟩ := foldlM_of_fourPlaces hx hm
    obtain ⟨s₂, hs₂, hm₂⟩ := ih (hmap h) hm₁
    exact ⟨s₂, hs₁.trans hs₂, hm₂⟩
  | case4 => cases h
  | case5 => cases h
  | case6 passed e rest _ _ x _ ih =>
    obtain ⟨s', hs', hm'⟩ := ih (hmap h) (mode_pass _ _ _)
    exact ⟨s', (foldlM_of_escape hm).trans hs', hm'⟩
  | case7 => cases h
  | case8 => cases h
  | case9 passed c rest hq _ _ he hl ih =>
    have hc : c ≠ '\\' := by
      intro hc
      cases rest with
      | nil => exact hl hc rfl
      | cons e rest => exact he e rest hc rfl
    obtain ⟨s', hs', hm'⟩ := ih (hmap h) (mode_pass _ _ _)
    exact ⟨s', by rw [List.foldlM_cons, step_of_string hq hc hm]; exact hs', hm'⟩

/-- A walk that comes through a text with an unterminated string stands in it at the end. -/
theorem mode_of_unterminated {line offset faultLine : Nat} {cs : List Char}
    (h : Token.scan line offset cs = .error ⟨faultLine, .unterminatedString⟩) {s s' : State}
    (hs : Ready s cs) (hs' : cs.foldlM step s = .ok s') : ∃ n, s'.mode = .string n := by
  fun_induction Token.scan line offset cs generalizing s with
  | case1 => cases h
  | case2 line offset c rest hc ih =>
    rw [List.foldlM_cons, hs.space hc] at hs'
    exact ih h (.inl rfl) hs'
  | case3 line offset c rest _ passed cause hr =>
    cases h
    obtain ⟨rfl, hstring⟩ := readString_of_unterminated hr
    obtain ⟨s₁, hs₁, hm₁⟩ := foldlM_of_unterminated hstring (mode_pass s (.string s.line) '"')
    have hquote : step s '"' = .ok (s.pass (.string s.line) '"') := by rw [hs.step_eq]; rfl
    rw [List.foldlM_cons, hquote] at hs'
    cases hs₁.symm.trans hs'
    exact ⟨s.line, hm₁⟩
  | case4 line offset c rest _ t hr body stop fault hrec =>
    rename_i ih
    cases h
    obtain ⟨body', after, rfl, hm, hp⟩ := piece_of_read hr
    rw [hm, List.drop_left] at ih
    rw [← List.cons_append, List.foldlM_append] at hs'
    generalize hpiece : (c :: body').foldlM step s = r at hs'
    have hagree := agree_of_piece hp hs
    rw [hpiece] at hagree
    generalize nestOne s.brackets t.lexeme = o at hagree
    cases hagree with
    | onward hready => exact ih (by rwa [hm, List.drop_left] at hrec) hready hs'
    | refused => cases hs'
  | case5 => cases h

/-- Of a text that has tokens the walk says whether the brackets among them nest, and a text that it
accepts has no string that does not end. -/
theorem check_agrees_with_scan (text : List Char) :
    (∀ ts, Token.scan 1 0 text = .ok ts →
      (check text = .ok () ↔ Nested (Token.brackets ts))) ∧
    (check text = .ok () → ∀ line, Token.scan 1 0 text ≠ .error ⟨line, .unterminatedString⟩) := by
  constructor
  · intro ts hts
    rw [check_eq_ok_iff (Token.scans_of_scan hts), nest_eq_nil_iff, Token.brackets,
      List.filterMap_map]
    rfl
  · intro hcheck line hscan
    unfold check at hcheck
    cases hwalk : text.foldlM step start with
    | error fault => rw [hwalk] at hcheck; cases hcheck
    | ok s =>
      rw [hwalk] at hcheck
      obtain ⟨n, hm⟩ := mode_of_unterminated hscan (.inl rfl) hwalk
      have hfinish : finish s = .ok () := hcheck
      simp only [finish, hm] at hfinish
      cases hfinish

/-- Brackets and quotes in comments and strings do not count for either side. -/
theorem check_agrees_with_scan_quoted :
    Token.scan 1 0 "(/*/ ( */ [\"\\\")\"]) // )".toList = .ok
      [⟨.punct .openParen, 1, 0, 1⟩, ⟨.comment "/*/ ( */", 1, 1, 9⟩,
        ⟨.punct .openBracket, 1, 10, 11⟩, ⟨.str "\")", 1, 11, 16⟩, ⟨.punct .closeBracket, 1, 16, 17⟩,
        ⟨.punct .closeParen, 1, 17, 18⟩, ⟨.comment "// )", 1, 19, 23⟩] ∧
    check "(/*/ ( */ [\"\\\")\"]) // )".toList = .ok () ∧
    Nested [.openParen, .openBracket, .closeBracket, .closeParen] := by
  refine ⟨?scan, ?check, ((check_agrees_with_scan _).1 _ ?scan).mp ?check⟩
  case scan => cbv
  case check => cbv

end Balance

end PipelineScript
