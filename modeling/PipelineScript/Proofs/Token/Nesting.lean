import PipelineScript.Proofs.Token.Slices

/-! # Nesting

The walk over the characters of a text and the scanner agree on which brackets are code: the walk
accepts a text that has tokens if and only if the brackets among its tokens nest
(`Balance.check_eq_ok_iff`). -/

namespace PipelineScript

open Text Literal

namespace Lexeme

def opened? : Lexeme → Option Bracket
  | punct p => p.opened?
  | _ => none

def closed? : Lexeme → Option Bracket
  | punct p => p.closed?
  | _ => none

/-- The open brackets behind a lexeme, the innermost first. A closing bracket needs its partner
on top. -/
def nestOne (stack : List Bracket) (l : Lexeme) : Option (List Bracket) :=
  match l.opened?, l.closed?, stack with
  | some b, _, _ => some (b :: stack)
  | none, some b, top :: rest => if top = b then some rest else none
  | none, some _, [] => none
  | none, none, _ => some stack

/-- The open brackets behind some lexemes. -/
def nest (stack : List Bracket) (ls : List Lexeme) : Option (List Bracket) := ls.foldlM nestOne stack

theorem nest_cons (stack : List Bracket) (l : Lexeme) (ls : List Lexeme) :
    nest stack (l :: ls) = (nestOne stack l).bind fun open_ => nest open_ ls := rfl

theorem nest_append (stack : List Bracket) (ls ms : List Lexeme) :
    nest stack (ls ++ ms) = (nest stack ls).bind fun open_ => nest open_ ms :=
  List.foldlM_append

theorem nestOne_of_opened {l : Lexeme} {b : Bracket} (h : l.opened? = some b)
    (stack : List Bracket) : nestOne stack l = some (b :: stack) := by
  simp [nestOne, h]

theorem nestOne_of_none {l : Lexeme} (ho : l.opened? = none) (hc : l.closed? = none)
    (stack : List Bracket) : nestOne stack l = some stack := by
  simp [nestOne, ho, hc]

theorem opened?_of_closed {l : Lexeme} {b : Bracket} (h : l.closed? = some b) :
    l.opened? = none := by
  cases l with
  | punct p => cases p <;> cases h <;> rfl
  | _ => rfl

/-- Only with its partner on top a closing bracket is accepted. -/
theorem nestOne_of_closed {l : Lexeme} {b : Bracket} (h : l.closed? = some b)
    {stack after : List Bracket} : nestOne stack l = some after ↔ stack = b :: after := by
  have ho := opened?_of_closed h
  cases stack with
  | nil => simp [nestOne, h, ho]
  | cons top rest => simp [nestOne, h, ho]

/-- Line ends and comments do not matter. -/
theorem nestOne_of_isCode {l : Lexeme} (h : l.isCode = false) (stack : List Bracket) :
    nestOne stack l = some stack := by
  cases l with
  | lineEnd => rfl
  | comment => rfl
  | _ => cases h

theorem nest_code (stack : List Bracket) (ts : List Token) :
    nest stack (Token.code ts) = nest stack (ts.map Token.lexeme) := by
  induction ts generalizing stack with
  | nil => rfl
  | cons t ts ih =>
    rw [Token.code_cons, List.map_cons, nest_cons]
    by_cases h : t.lexeme.isCode = true
    · simp only [h, if_true, nest_cons, ih]
    · rw [Bool.not_eq_true] at h
      rw [nestOne_of_isCode h, Option.bind_some]
      simp only [h, Bool.false_eq_true, if_false, ih]

end Lexeme

namespace Balance

open Lexeme

/-- The open brackets of the walk without their lines. -/
def State.brackets (s : State) : List Bracket := s.stack.map Prod.fst

/-- The walk stands between two pieces of the text, with `rest` ahead: in code, or at the end of
something that the next character cannot carry on. -/
def Ready (s : State) (rest : List Char) : Prop :=
  s.mode = .code ∨ s.mode = .slash ∧ rest.head? ≠ some '/' ∧ rest.head? ≠ some '*' ∨
    s.mode = .lineComment ∧ ∀ c ∈ rest.head?, c = '\n'

/-- The walk and the nesting of tokens went the same way, with `rest` ahead. -/
inductive Agree (rest : List Char) :
    Except LexicalFault State → Option (List Bracket) → Prop
  | onward {s : State} : Ready s rest → Agree rest (.ok s) (some s.brackets)
  | refused {fault : LexicalFault} : Agree rest (.error fault) none

theorem Agree.of_eq {rest : List Char} {r : Except LexicalFault State} {o : Option (List Bracket)}
    {s : State} (hr : r = .ok s) (hs : Ready s rest) (ho : o = some s.brackets) :
    Agree rest r o := by
  rw [hr, ho]; exact .onward hs

theorem Agree.bind {rest rest' : List Char} {r : Except LexicalFault State}
    {o : Option (List Bracket)} {f : State → Except LexicalFault State}
    {g : List Bracket → Option (List Bracket)} (h : Agree rest r o)
    (hf : ∀ s, Ready s rest → Agree rest' (f s) (g s.brackets)) :
    Agree rest' (r >>= f) (o.bind g) := by
  cases h with
  | onward hs => exact hf _ hs
  | refused => exact .refused

/-- Between two pieces a character is one of code. A line feed that ends a comment is, too. -/
theorem Ready.step_eq {s : State} {c : Char} {rest : List Char} (h : Ready s (c :: rest)) :
    step s c = codeStep s c := by
  obtain h | ⟨h, hline, hblock⟩ | ⟨h, hend⟩ := h
  · simp only [Balance.step, h]
  · have h1 : c ≠ '/' := fun hc => hline (by rw [hc]; rfl)
    have h2 : c ≠ '*' := fun hc => hblock (by rw [hc]; rfl)
    simp only [Balance.step, h, h1, h2, if_false]
  · obtain rfl : c = '\n' := hend c rfl
    simp only [Balance.step, h]
    rfl

/-- Code that is no bracket, no quote and no slash passes. -/
theorem codeStep_pass {c : Char} (hq : c ≠ '"') (hs : c ≠ '/') (ho : Bracket.opened? c = none)
    (hc : Bracket.closed? c = none) (s : State) : codeStep s c = .ok (s.pass .code c) := by
  simp only [codeStep, hq, hs, if_false, ho, hc]

theorem codeStep_of_isPlain {c : Char} (h : isPlain c = true) (s : State) :
    codeStep s c = .ok (s.pass .code c) := by
  simp only [isPlain, Bool.and_eq_true, bne_iff_ne, ne_eq, Option.isNone_iff_eq_none] at h
  exact codeStep_pass h.1.1.1.2 h.1.1.2 h.1.2 h.2 s

theorem codeStep_of_isBlank {c : Char} (h : isBlank c = true) (s : State) :
    codeStep s c = .ok (s.pass .code c) := by
  have hne (d : Char) (hd : isBlank d = false) : c ≠ d := by
    rintro rfl; rw [h] at hd; cases hd
  have hbracket (b : Bracket) : b.opening ≠ c ∧ b.closing ≠ c := by
    cases b <;> exact ⟨(hne _ (by decide)).symm, (hne _ (by decide)).symm⟩
  refine codeStep_pass (hne '"' (by decide)) (hne '/' (by decide)) ?_ ?_ s
  · exact List.find?_eq_none.mpr fun b _ => by simpa using (hbracket b).1
  · exact List.find?_eq_none.mpr fun b _ => by simpa using (hbracket b).2

theorem mode_pass (s : State) (mode : Mode) (c : Char) : (s.pass mode c).mode = mode := rfl

/-! ## One piece of the text -/

/-- A mode that every character keeps is kept by all of them. -/
theorem foldlM_steady {mode : Mode} {cs : List Char}
    (h : ∀ c ∈ cs, ∀ s : State, s.mode = mode → step s c = .ok (s.pass mode c)) {s : State}
    (hm : s.mode = mode) :
    ∃ s', cs.foldlM step s = .ok s' ∧ s'.mode = mode ∧ s'.brackets = s.brackets := by
  induction cs generalizing s with
  | nil => exact ⟨s, rfl, hm, rfl⟩
  | cons c cs ih =>
    have hstep := h c (by simp) s hm
    obtain ⟨s', hs', hm', hb⟩ := ih (fun x hx => h x (by simp [hx])) (mode_pass s mode c)
    exact ⟨s', by rw [List.foldlM_cons, hstep]; exact hs', hm', hb⟩

theorem step_of_isPlain {c : Char} (h : isPlain c = true) {s : State} (hm : s.mode = .code) :
    step s c = .ok (s.pass .code c) := by
  simp only [step, hm, codeStep_of_isPlain h]

theorem step_of_lineComment {c : Char} (h : c ≠ '\n') {s : State} (hm : s.mode = .lineComment) :
    step s c = .ok (s.pass .lineComment c) := by
  simp only [step, hm, h, if_false]

theorem step_of_string {c : Char} (hq : c ≠ '"') (he : c ≠ '\\') {s : State} {openedOn : Nat}
    (hm : s.mode = .string openedOn) : step s c = .ok (s.pass (.string openedOn) c) := by
  simp only [step, hm, hq, he, if_false]

/-- The walk leaves a block comment where the scanner does. The star of its opening does not count
for its closing. -/
theorem foldlM_of_blockComment {cs : List Char} (h : blockCommentLength? cs = some cs.length)
    {s : State} {starred : Bool} (hm : s.mode = .blockComment starred)
    (hstar : ¬ (starred = true ∧ cs.head? = some '/')) :
    ∃ s', cs.foldlM step s = .ok s' ∧ s'.mode = .code ∧ s'.brackets = s.brackets := by
  induction cs generalizing s starred with
  | nil => cases h
  | cons c cs ih =>
    have hstep : step s c = .ok (s.pass (.blockComment (c == '*')) c) := by
      have hopen : (starred && c == '/') = false := by
        rw [Bool.and_eq_false_imp]
        intro hs
        rw [beq_eq_false_iff_ne]
        exact fun hc => hstar ⟨hs, congrArg some hc⟩
      simp only [step, hm, hopen, Bool.false_eq_true, if_false]
    rw [blockCommentLength?_cons] at h
    rw [List.foldlM_cons, hstep]
    by_cases hc : c = '*' ∧ cs.head? = some '/'
    · obtain ⟨rest, rfl⟩ := List.head?_eq_some_iff.mp hc.2
      rw [if_pos hc] at h
      have hr : rest = [] := by simpa using h.symm
      subst hr
      obtain ⟨rfl, -⟩ := hc
      exact ⟨_, rfl, rfl, rfl⟩
    · rw [if_neg hc] at h
      obtain ⟨n, hn, hl⟩ := Option.map_eq_some_iff.mp h
      rw [List.length_cons, Nat.succ_inj] at hl
      subst hl
      refine ih hn (mode_pass s _ c) ?_
      rintro ⟨hs, hh⟩
      exact hc ⟨beq_iff_eq.mp hs, hh⟩

/-- The places of an escape are digits, and perhaps a sign. -/
theorem ne_of_mem_fourPlaces {a b c d x y : Char} (h : fourPlaces? a b c d = some x)
    (hy : y ∈ [a, b, c, d]) : y ≠ '"' ∧ y ≠ '\\' := by
  have hdigit {z : Char} {v : Nat} (hz : hexValue? z = some v) : z ≠ '"' ∧ z ≠ '\\' := by
    constructor <;> (rintro rfl; cases hz)
  by_cases ha : a = '+'
  · simp only [fourPlaces?, ha, if_true, List.mapM_cons, List.mapM_nil, Option.bind_eq_bind,
      Option.bind_eq_some_iff] at h
    obtain ⟨_, ⟨_, hb, _, ⟨_, hc, _, ⟨_, hd, _⟩, _⟩, _⟩, _⟩ := h
    simp only [List.mem_cons, List.not_mem_nil, or_false] at hy
    rcases hy with rfl | rfl | rfl | rfl
    · rw [ha]; decide
    · exact hdigit hb
    · exact hdigit hc
    · exact hdigit hd
  · simp only [fourPlaces?, ha, if_false, List.mapM_cons, List.mapM_nil, Option.bind_eq_bind,
      Option.bind_eq_some_iff] at h
    obtain ⟨_, ⟨_, ha, _, ⟨_, hb, _, ⟨_, hc, _, ⟨_, hd, _⟩, _⟩, _⟩, _⟩, _⟩ := h
    simp only [List.mem_cons, List.not_mem_nil, or_false] at hy
    rcases hy with rfl | rfl | rfl | rfl
    · exact hdigit ha
    · exact hdigit hb
    · exact hdigit hc
    · exact hdigit hd

/-- A backslash and the character behind it leave the walk in its string. -/
theorem foldlM_of_escape {e : Char} {rest : List Char} {s : State} {openedOn : Nat}
    (hm : s.mode = .string openedOn) :
    ('\\' :: e :: rest).foldlM step s =
      rest.foldlM step ((s.pass (.escape openedOn) '\\').pass (.string openedOn) e) := by
  have hstart : step s '\\' = .ok (s.pass (.escape openedOn) '\\') := by
    simp only [step, hm]; rfl
  rw [List.foldlM_cons, hstart]
  rfl

/-- The places of an escape leave the walk in its string, too. -/
theorem foldlM_of_fourPlaces {a b c d x : Char} (hx : fourPlaces? a b c d = some x)
    {rest : List Char} {s : State} {openedOn : Nat} (hm : s.mode = .string openedOn) :
    ∃ s', ('\\' :: 'u' :: a :: b :: c :: d :: rest).foldlM step s = rest.foldlM step s' ∧
      s'.mode = .string openedOn ∧ s'.brackets = s.brackets := by
  rw [foldlM_of_escape hm]
  have hplaces : ∀ y ∈ [a, b, c, d], ∀ s : State, s.mode = .string openedOn →
      step s y = .ok (s.pass (.string openedOn) y) := fun y hy s hs =>
    step_of_string (ne_of_mem_fourPlaces hx hy).1 (ne_of_mem_fourPlaces hx hy).2 hs
  obtain ⟨s', hs', hm', hb'⟩ := foldlM_steady hplaces
    (mode_pass (s.pass (.escape openedOn) '\\') (.string openedOn) 'u')
  refine ⟨s', ?_, hm', hb'⟩
  rw [show a :: b :: c :: d :: rest = [a, b, c, d] ++ rest from rfl, List.foldlM_append, hs']
  rfl

/-- The walk leaves a string where the scanner does. -/
theorem foldlM_of_stringBody {body contents : List Char} (h : StringBody body contents)
    {s : State} {openedOn : Nat} (hm : s.mode = .string openedOn) :
    ∃ s', body.foldlM step s = .ok s' ∧ s'.mode = .code ∧ s'.brackets = s.brackets := by
  induction h generalizing s with
  | close =>
    have hstep : step s '"' = .ok (s.pass .code '"') := by simp only [step, hm, if_true]
    exact ⟨s.pass .code '"', by rw [List.foldlM_cons, hstep]; rfl, rfl, rfl⟩
  | fourPlaces hx _ ih =>
    obtain ⟨s₁, hs₁, hm₁, hb₁⟩ := foldlM_of_fourPlaces hx hm
    obtain ⟨s₂, hs₂, hm₂, hb₂⟩ := ih hm₁
    exact ⟨s₂, hs₁.trans hs₂, hm₂, hb₂.trans hb₁⟩
  | escape he hx _ ih =>
    rw [foldlM_of_escape hm]
    exact ih (mode_pass _ _ _)
  | char hq he _ ih =>
    rw [List.foldlM_cons, step_of_string hq he hm]
    exact ih (mode_pass _ _ _)

/-! ## The whole text -/

theorem nestOne_of_isPlain {l : Lexeme} (h : l.IsPlain) (stack : List Bracket) :
    nestOne stack l = some stack := by
  cases l with
  | punct p => exact nestOne_of_none (show (punct p).opened? = none from h.1) h.2.1 stack
  | _ => rfl

/-- The walk closes a bracket when the nesting does. -/
theorem agree_of_close {p : Punct} {b : Bracket} (h : p.closed? = some b) (s : State)
    {rest : List Char} :
    Agree rest ((close b s.line s.stack).map fun stack => { s with mode := .code, stack })
      (nestOne s.brackets (punct p)) := by
  have hc : (punct p).closed? = some b := h
  have ho := opened?_of_closed hc
  obtain ⟨mode, stack, line⟩ := s
  cases stack with
  | nil =>
    have hn : nestOne [] (punct p) = none := by simp only [nestOne, hc, ho]
    simp only [State.brackets, List.map_nil, hn]
    exact .refused
  | cons top stack =>
    obtain ⟨top, openedOn⟩ := top
    by_cases ht : top = b
    · subst ht
      have hn : nestOne (top :: stack.map Prod.fst) (punct p) = some (stack.map Prod.fst) :=
        (nestOne_of_closed hc).mpr rfl
      simp only [State.brackets, List.map_cons, close, if_true, hn]
      exact .of_eq rfl (.inl rfl) rfl
    · have hn : nestOne (top :: stack.map Prod.fst) (punct p) = none := by
        simp only [nestOne, hc, ho, ht, if_false]
      simp only [State.brackets, List.map_cons, close, ht, if_false, hn]
      exact .refused

/-- A piece leaves the walk between two pieces with the brackets that its lexeme leaves open. -/
theorem agree_of_piece {c : Char} {body rest : List Char} {l : Lexeme}
    (h : Piece c body l rest) {s : State} (hs : Ready s (c :: (body ++ rest))) :
    Agree rest ((c :: body).foldlM step s) (nestOne s.brackets l) := by
  rw [List.foldlM_cons, hs.step_eq]
  cases h with
  | lineFeed => exact .of_eq rfl (.inl rfl) rfl
  | semicolon => exact .of_eq rfl (.inl rfl) rfl
  | lineComment hbody hrest =>
    obtain ⟨s', hs', hm', hb'⟩ := foldlM_steady (fun c hc _ => step_of_lineComment (hbody c hc))
      (mode_pass (s.pass .slash '/') .lineComment '/')
    exact .of_eq hs' (.inr (.inr ⟨hm', hrest⟩)) (by rw [hb']; rfl)
  | blockComment hbody =>
    obtain ⟨s', hs', hm', hb'⟩ := foldlM_of_blockComment hbody
      (mode_pass (s.pass .slash '/') (.blockComment false) '*') (by simp)
    exact .of_eq hs' (.inl hm') (by rw [hb']; rfl)
  | str hbody =>
    obtain ⟨s', hs', hm', hb'⟩ := foldlM_of_stringBody hbody (mode_pass s (.string s.line) '"')
    exact .of_eq hs' (.inl hm') (by rw [hb']; rfl)
  | @opening p b _ hp =>
    have hstep : codeStep s b.opening = .ok ⟨.code, (b, s.line) :: s.stack, s.line⟩ := by
      cases b <;> rfl
    rw [hstep, nestOne_of_opened (show (punct p).opened? = some b from hp)]
    exact .of_eq rfl (.inl rfl) rfl
  | @closing p b _ hp =>
    have hstep : codeStep s b.closing =
        (close b s.line s.stack).map fun stack => { s with mode := .code, stack } := by
      cases b <;> rfl
    show Agree rest (codeStep s b.closing >>= pure) _
    rw [hstep, bind_pure]
    exact agree_of_close hp s
  | slash hline hblock => exact .of_eq rfl (.inr (.inl ⟨rfl, hline, hblock⟩)) rfl
  | plain hl hp =>
    rw [codeStep_of_isPlain (hp c (by simp)), nestOne_of_isPlain hl]
    obtain ⟨s', hs', hm', hb'⟩ := foldlM_steady
      (fun x hx _ => step_of_isPlain (hp x (List.mem_cons_of_mem c hx))) (mode_pass s .code c)
    exact .of_eq hs' (.inl hm') (by rw [hb']; rfl)

theorem Ready.space {s : State} {c : Char} {rest : List Char} (hs : Ready s (c :: rest))
    (hc : isSpace c = true) : step s c = .ok (s.pass .code c) := by
  rw [hs.step_eq, codeStep_of_isBlank (Bool.and_eq_true_iff.mp hc).2]

/-- The walk and the nesting of the tokens go the same way through the whole text. -/
theorem agree_of_scans {offset : Nat} {cs : List Char} {ts : List Token}
    (h : Token.Scans offset cs ts) {s : State} (hs : Ready s cs) :
    Agree [] (cs.foldlM step s) (nest s.brackets (ts.map Token.lexeme)) := by
  induction h generalizing s with
  | done => exact .onward hs
  | @space offset c cs ts hc _ ih =>
    rw [List.foldlM_cons, hs.space hc]
    exact ih (s := s.pass .code c) (.inl rfl)
  | @token offset line c body rest l ts _ hr _ ih =>
    obtain ⟨body', after, hb, hm, hp⟩ := Lexeme.piece_of_read hr
    obtain ⟨rfl, rfl⟩ := List.append_inj hb hm
    rw [← List.cons_append, List.foldlM_append, List.map_cons, nest_cons]
    exact (agree_of_piece hp hs).bind fun s' hs' => ih hs'

theorem finish_eq_ok_iff {s : State} (hs : Ready s []) : finish s = .ok () ↔ s.brackets = [] := by
  obtain ⟨mode, stack, line⟩ := s
  have hm : mode = .code ∨ mode = .slash ∨ mode = .lineComment :=
    hs.imp_right fun h => h.imp And.left And.left
  cases stack with
  | nil => rcases hm with rfl | rfl | rfl <;> simp [finish, State.brackets]
  | cons top stack => rcases hm with rfl | rfl | rfl <;> simp [finish, State.brackets]

/-- The walk accepts a text if and only if the brackets among its tokens nest. -/
theorem check_eq_ok_iff {offset : Nat} {cs : List Char} {ts : List Token}
    (h : Token.Scans offset cs ts) :
    check cs = .ok () ↔ nest [] (ts.map Token.lexeme) = some [] := by
  have hagree := agree_of_scans h (s := start) (.inl rfl)
  generalize hr : cs.foldlM step start = r at hagree
  generalize ho : nest start.brackets (ts.map Token.lexeme) = o at hagree
  rw [show nest [] (ts.map Token.lexeme) = o from ho, check, hr]
  cases hagree with
  | onward hs => rw [Option.some_inj]; exact finish_eq_ok_iff hs
  | refused => constructor <;> (intro h; cases h)

end Balance

end PipelineScript
