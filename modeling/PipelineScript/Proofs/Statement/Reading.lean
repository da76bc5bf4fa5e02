import PipelineScript.Proofs.Statement.Cuts
import PipelineScript.Statement.Reader

/-! # What readings take

A reading that succeeds has taken some tokens from the front. `Takes` says what its result and these
tokens satisfy; the rules follow the way readings are put together. In a text whose brackets nest,
every expression that is read is the text of balanced tokens (`IsCut`). -/

namespace PipelineScript

/-- The second cursor stands `used` tokens further in the same text. -/
structure Cursor.Passes (c : Cursor) (used : List Token) (c' : Cursor) : Prop where
  source : c'.source = c.source
  ahead : c.ahead = used ++ c'.ahead

namespace Cursor.Passes

variable {c c' c'' : Cursor} {used more : List Token}

theorem refl (c : Cursor) : c.Passes [] c := ⟨rfl, rfl⟩

theorem trans (h : c.Passes used c') (h' : c'.Passes more c'') : c.Passes (used ++ more) c'' :=
  ⟨h'.source.trans h.source, by rw [h.ahead, h'.ahead, List.append_assoc]⟩

theorem advance (c : Cursor) (n : Nat) : c.Passes (c.ahead.take n) (c.advance n) :=
  ⟨rfl, (List.take_append_drop n c.ahead).symm⟩

end Cursor.Passes

namespace Reading

variable {α β : Type} {c : Cursor}

/-- Two readings one behind the other succeed with a result and a cursor in between. -/
theorem bind_eq_ok {r : Reading α} {f : α → Reading β} {b : β} {c' : Cursor} :
    (r >>= f) c = .ok (b, c') ↔ ∃ a c₁, r c = .ok (a, c₁) ∧ f a c₁ = .ok (b, c') := by
  show (r c >>= fun s => f s.1 s.2) = .ok (b, c') ↔ _
  constructor
  · intro h
    cases hrc : r c with
    | error e => rw [hrc] at h; cases h
    | ok s => rw [hrc] at h; exact ⟨s.1, s.2, rfl, h⟩
  · rintro ⟨a, c₁, ha, hb⟩
    rw [ha]
    exact hb

theorem sourceOf_eq (ts : List Token) (cause : StatementCause) (c : Cursor) :
    sourceOf ts cause c = (Cursor.sourceOf? c.source ts).elim (fail cause) pure c := by
  have hfound (f : Option SourceExpr → Reading SourceExpr) :
      (sourceOf? ts >>= f) c = f (Cursor.sourceOf? c.source ts) c := rfl
  unfold sourceOf
  rw [hfound]
  cases Cursor.sourceOf? c.source ts <;> rfl

/-- The cursor stays where it is. -/
theorem sourceOf_eq_ok {ts : List Token} {cause : StatementCause} {e : SourceExpr} {c' : Cursor} :
    sourceOf ts cause c = .ok (e, c') ↔ Cursor.sourceOf? c.source ts = some e ∧ c' = c := by
  rw [sourceOf_eq]
  constructor
  · intro h
    cases he : Cursor.sourceOf? c.source ts with
    | none => rw [he] at h; cases h
    | some e' => rw [he] at h; cases h; exact ⟨rfl, rfl⟩
  · rintro ⟨he, rfl⟩
    rw [he]
    rfl

/-- Whenever the reading succeeds at the cursor, its result and the tokens that it took
satisfy `post`. -/
def Takes (r : Reading α) (c : Cursor) (post : α → List Token → Prop) : Prop :=
  ∀ a c', r c = .ok (a, c') → ∃ used, c.Passes used c' ∧ post a used

variable {r : Reading α} {post post' : α → List Token → Prop} {goal : β → List Token → Prop}

theorem Takes.mono (h : Takes r c post) (hpost : ∀ a used, post a used → post' a used) :
    Takes r c post' := by
  intro a c' hr
  obtain ⟨used, hc, hp⟩ := h a c' hr
  exact ⟨used, hc, hpost a used hp⟩

/-- The second reading starts behind what the first one took. -/
theorem Takes.bind {f : α → Reading β} (h : Takes r c post)
    (hf : ∀ a used c', c.Passes used c' → post a used →
      Takes (f a) c' fun b more => goal b (used ++ more)) : Takes (r >>= f) c goal := by
  intro b c'' hr
  obtain ⟨a, c', ha, hb⟩ := bind_eq_ok.mp hr
  obtain ⟨used, hc, hp⟩ := h a c' ha
  obtain ⟨more, hc', hq⟩ := hf a used c' hc hp b c'' hb
  exact ⟨used ++ more, hc.trans hc', hq⟩

theorem takes_pure {a : α} (h : post a []) : Takes (pure a) c post := by
  intro a' c' hr
  cases hr
  exact ⟨[], .refl c, h⟩

theorem takes_fail (cause : StatementCause) : Takes (fail cause) c post := by
  intro a c' hr
  cases hr

theorem takes_get {f : Cursor → Reading β} (h : Takes (f c) c goal) : Takes (get >>= f) c goal :=
  h

theorem takes_set {c' : Cursor} {used : List Token} (h : c.Passes used c') :
    Takes (set c') c fun _ taken => taken = used := by
  intro _ c'' hr
  cases hr
  exact ⟨used, h, rfl⟩

theorem takes_advance (n : Nat) : Takes (advance n) c fun _ used => used = c.ahead.take n := by
  intro _ c' hr
  cases hr
  exact ⟨_, .advance c n, rfl⟩

theorem takes_take (n : Nat) :
    Takes (take n) c fun ts used => ts = used ∧ used = c.ahead.take n := by
  intro ts c' hr
  cases hr
  exact ⟨_, .advance c n, rfl, rfl⟩

theorem takes_skipWhile (p : Token → Bool) : Takes (skipWhile p) c fun _ _ => True := by
  intro _ c' hr
  cases hr
  exact ⟨_, .advance c _, trivial⟩

/-! ## Marks and names -/

theorem takes_next {t : Token} (h : c.head? = some t) :
    Takes (advance 1) c fun _ used => used = [t] := by
  refine (takes_advance 1).mono fun _ used hu => ?_
  obtain ⟨ts, hts⟩ := List.head?_eq_some_iff.mp h
  rw [hu, hts]; rfl

theorem takes_accept (p : Punct) : Takes (accept p) c fun found used =>
    found = true ∧ (∃ t, used = [t] ∧ t.lexeme = .punct p) ∨ found = false ∧ used = [] := by
  unfold accept
  refine takes_get ?_
  split
  · rename_i h
    obtain ⟨t, ht, hp⟩ := (Option.any_eq_true _ _).mp h
    refine (takes_next ht).bind fun _ used c' _ hu => takes_pure (.inl ⟨rfl, t, ?_, ?_⟩)
    · rw [hu, List.append_nil]
    · exact of_decide_eq_true hp
  · exact takes_pure (.inr ⟨rfl, rfl⟩)

theorem takes_acceptKeyword (k : Keyword) : Takes (acceptKeyword k) c fun _ _ => True := by
  unfold acceptKeyword
  refine takes_get ?_
  split
  · exact (takes_advance 1).bind fun _ _ _ _ _ => takes_pure trivial
  · exact takes_pure trivial

theorem takes_mark (p : Punct) (what : String) :
    Takes (mark p what) c fun _ used => ∃ t, used = [t] ∧ t.lexeme = .punct p := by
  unfold mark
  refine (takes_accept p).bind fun found used c' _ h => ?_
  rcases h with ⟨rfl, t, rfl, ht⟩ | ⟨rfl, -⟩
  · exact takes_pure ⟨t, rfl, ht⟩
  · exact takes_fail _

theorem takes_name (what : String) :
    Takes (name what) c fun s used => ∃ t, used = [t] ∧ t.lexeme = .ident s := by
  unfold name
  refine takes_get ?_
  split
  · rename_i s h
    obtain ⟨t, ht, hl⟩ := Option.map_eq_some_iff.mp h
    refine (takes_next ht).bind fun _ used c' _ hu => takes_pure ⟨t, ?_, hl⟩
    rw [hu, List.append_nil]
  · exact takes_fail _
  · exact takes_fail _
  · exact takes_fail _

theorem name_eq {t : Token} {s : String} (ht : t.lexeme = .ident s) (what : String)
    (text : List Char) (passed us : List Token) :
    name what ⟨text, passed, t :: us⟩ = .ok (s, ⟨text, t :: passed, us⟩) := by
  obtain ⟨l, _, _, _⟩ := t
  cases ht
  rfl

theorem dottedName_eq {t : Token} {s : String} (ht : t.lexeme = .ident s) (what : String)
    (text : List Char) (passed us : List Token) :
    dottedName what ⟨text, passed, t :: us⟩ = .ok (s :: Token.dottedParts us,
      Cursor.advance ⟨text, t :: passed, us⟩ (2 * (Token.dottedParts us).length)) := by
  show (name what ⟨text, passed, t :: us⟩ >>= fun s => _) = _
  rw [name_eq ht]
  rfl

theorem mem_of_mem_dottedParts {ts : List Token} :
    ∀ s ∈ Token.dottedParts ts, ∃ t ∈ ts.take (2 * (Token.dottedParts ts).length),
      t.lexeme = .ident s := by
  fun_induction Token.dottedParts ts with
  | case1 dot name line start stop rest _ ih =>
    intro s hs
    rw [List.length_cons, Nat.mul_add, List.take_succ_cons, List.take_succ_cons]
    obtain rfl | hs := List.mem_cons.mp hs
    · exact ⟨_, List.mem_cons_of_mem _ List.mem_cons_self, rfl⟩
    · obtain ⟨t, ht, hl⟩ := ih s hs
      exact ⟨t, List.mem_cons_of_mem _ (List.mem_cons_of_mem _ ht), hl⟩
  | case2 => exact List.forall_mem_nil _
  | case3 => exact List.forall_mem_nil _

/-- The parts of a dotted name are names. -/
theorem takes_dottedName (what : String) :
    Takes (dottedName what) c fun parts used => Token.Balanced used ∧ parts ≠ [] ∧
      ∀ s ∈ parts, ∃ t ∈ used, t.lexeme = .ident s := by
  unfold dottedName
  refine (takes_name what).bind fun first used c' _ hu => takes_get ?_
  obtain ⟨t, rfl, ht⟩ := hu
  refine (takes_advance _).bind fun _ more _ _ hm => takes_pure ?_
  rw [List.append_nil, hm]
  refine ⟨.cons (by rw [ht]; rfl) (by rw [ht]; rfl) (Token.balanced_take_dottedParts c'.ahead),
    List.cons_ne_nil _ _, List.forall_mem_cons.mpr ⟨⟨t, List.mem_cons_self, ht⟩, fun s hs => ?_⟩⟩
  obtain ⟨u, hu, hl⟩ := mem_of_mem_dottedParts s hs
  exact ⟨u, List.mem_cons_of_mem _ hu, hl⟩

/-! ## Expressions -/

variable {text : List Char} {code : List Token}

/-- The expression is the text of some tokens in a row, whose brackets nest. -/
def IsCut (text : List Char) (code : List Token) (e : SourceExpr) : Prop :=
  ∃ range, range <:+: code ∧ Token.Balanced range ∧ Cursor.sourceOf? text range = some e

/-- The cursor stands among the tokens of a text. -/
structure Within (text : List Char) (code : List Token) (c : Cursor) : Prop where
  source : c.source = text
  suffix : c.ahead <:+ code

theorem Within.passes {used : List Token} {c' : Cursor} (h : Within text code c)
    (hc : c.Passes used c') : Within text code c' :=
  ⟨hc.source.trans h.source, .trans ⟨used, hc.ahead.symm⟩ h.suffix⟩

/-- What is ahead closes the brackets that are open at the cursor. -/
theorem Within.nest (h : Within text code c) (hcode : Token.Balanced code) :
    ∃ open_, Lexeme.nest open_ (c.ahead.map Token.lexeme) = some [] := by
  obtain ⟨behind, hb⟩ := h.suffix
  unfold Token.Balanced at hcode
  rw [← hb, List.map_append, Lexeme.nest_append] at hcode
  obtain ⟨open_, -, hnest⟩ := Option.bind_eq_some_iff.mp hcode
  exact ⟨open_, hnest⟩

/-- Tokens from the front of what is ahead are tokens in a row. -/
theorem Within.row (h : Within text code c) (n : Nat) : c.ahead.take n <:+: code :=
  (List.take_prefix n c.ahead).isInfix.trans h.suffix.isInfix

theorem takes_sourceOf (tokens : List Token) (cause : StatementCause) :
    Takes (sourceOf tokens cause) c fun e used =>
      used = [] ∧ Cursor.sourceOf? c.source tokens = some e := by
  unfold sourceOf
  have hslice : Takes (sourceOf? tokens) c fun found used =>
      used = [] ∧ found = Cursor.sourceOf? c.source tokens := takes_get (takes_pure ⟨rfl, rfl⟩)
  refine hslice.bind fun found used c' _ h => ?_
  obtain ⟨rfl, hfound⟩ := h
  split
  · exact takes_pure ⟨rfl, hfound.symm⟩
  · exact takes_fail _

theorem takes_expressionTokens (hcode : Token.Balanced code) (hc : Within text code c)
    (stop : Token → Bool) : Takes (expressionTokens stop) c fun tokens used =>
      tokens = used ∧ used <:+: code ∧ Token.Encloses [] used ∧
        Token.expressionLength stop 0 used = used.length := by
  unfold expressionTokens
  refine takes_get ((takes_take _).mono fun tokens used h => ?_)
  obtain ⟨rfl, rfl⟩ := h
  obtain ⟨open_, hnest⟩ := hc.nest hcode
  exact ⟨rfl, hc.row _, Token.encloses_take_expressionLength stop [] Token.rooted_nil hnest,
    Token.expressionLength_take stop 0 c.ahead⟩

theorem takes_expression (hcode : Token.Balanced code) (hc : Within text code c)
    (stop : Token → Bool) (what : String) : Takes (expression stop what) c fun e used =>
      IsCut text code e ∧ Token.Balanced used := by
  unfold expression
  refine (takes_expressionTokens hcode hc stop).bind fun tokens used c' hp h => ?_
  obtain ⟨rfl, hrow, hencl, -⟩ := h
  refine (takes_sourceOf tokens _).mono fun e more he => ?_
  obtain ⟨rfl, hsource⟩ := he
  rw [(hc.passes hp).source] at hsource
  rw [List.append_nil]
  exact ⟨⟨tokens, hrow, hencl.nest, hsource⟩, hencl.nest⟩

theorem takes_parenthesized (hcode : Token.Balanced code) (hc : Within text code c)
    (what : String) : Takes (parenthesized what) c fun e _ => IsCut text code e := by
  unfold parenthesized
  refine (takes_mark _ _).bind fun _ used c' hp h => takes_get ?_
  obtain ⟨t, rfl, ht⟩ := h
  obtain ⟨open_, hnest⟩ := hc.nest hcode
  rw [hp.ahead, List.singleton_append, List.map_cons, Lexeme.nest_cons, ht,
    Lexeme.nestOne_of_opened rfl] at hnest
  have hc' := hc.passes hp
  split
  · exact takes_get ((takes_advance _).bind fun _ _ _ _ _ => takes_fail _)
  · rename_i n hn
    refine (takes_take n).bind fun tokens used c'' hp' h => ?_
    obtain ⟨rfl, rfl⟩ := h
    refine (takes_sourceOf _ _).bind fun e used c₃ hp'' he => ?_
    refine (takes_advance 1).bind fun _ _ _ _ _ => takes_pure ?_
    rw [(hc'.passes hp').source] at he
    exact ⟨_, hc'.row n, Token.balanced_take_closingDistance? hnest hn, he.2⟩

theorem takes_arguments (hcode : Token.Balanced code) (n : Nat) (hc : Within text code c) :
    Takes (arguments n) c fun args used => (∀ e ∈ args, IsCut text code e) ∧
      ∃ inner t, used = inner ++ [t] ∧ Token.Balanced inner ∧ t.lexeme = .punct .closeParen := by
  induction n generalizing c with
  | zero => exact takes_fail _
  | succ n ih =>
    unfold arguments
    refine (takes_expression hcode hc _ _).bind fun e first c' hp h => ?_
    obtain ⟨he, hfirst⟩ := h
    have hc' := hc.passes hp
    refine (takes_accept _).bind fun found used c'' hp' h => ?_
    rcases h with ⟨rfl, comma, rfl, hcomma⟩ | ⟨rfl, rfl⟩
    · refine (ih (hc'.passes hp')).bind fun args used _ _ h => takes_pure ?_
      obtain ⟨hargs, inner, t, rfl, hinner, ht⟩ := h
      refine ⟨List.forall_mem_cons.mpr ⟨he, hargs⟩, first ++ comma :: inner, t, by simp, ?_, ht⟩
      exact hfirst.append (.cons (by rw [hcomma]; rfl) (by rw [hcomma]; rfl) hinner)
    · refine (takes_mark _ _).bind fun _ used _ _ h => takes_pure ?_
      obtain ⟨t, rfl, ht⟩ := h
      exact ⟨List.forall_mem_singleton.mpr he, first, t, by simp, hfirst, ht⟩

/-- An invocation ends with a parenthesis. -/
theorem takes_invocation (hcode : Token.Balanced code) (hc : Within text code c) :
    Takes invocation c fun call used => (∀ e ∈ call.args, IsCut text code e) ∧
      Token.Balanced used ∧ ∃ t, used.getLast? = some t ∧ t.lexeme = .punct .closeParen := by
  unfold invocation
  refine (takes_dottedName _).bind fun parts path c₁ hp₁ hpath => ?_
  refine (takes_mark _ _).bind fun _ used c₂ hp₂ h => ?_
  obtain ⟨first, rfl, hfirst⟩ := h
  refine (takes_accept _).bind fun found used c₃ hp₃ h => ?_
  have hopened : first.lexeme.opened? = some .round := by rw [hfirst]; rfl
  rcases h with ⟨rfl, last, rfl, hlast⟩ | ⟨rfl, rfl⟩
  · have hclosed : last.lexeme.closed? = some .round := by rw [hlast]; rfl
    refine takes_pure ⟨List.forall_mem_nil _, ?_, last, by simp, hlast⟩
    exact hpath.1.append (.enclose hopened Token.balanced_nil hclosed)
  · have hc₃ := ((hc.passes hp₁).passes hp₂).passes hp₃
    refine takes_get ((takes_arguments hcode _ hc₃).bind fun args used _ _ h => takes_pure ?_)
    obtain ⟨hargs, inner, last, rfl, hinner, hlast⟩ := h
    have hclosed : last.lexeme.closed? = some .round := by rw [hlast]; rfl
    refine ⟨hargs, ?_, last,
      List.getLast?_eq_some_iff.mpr ⟨path ++ first :: inner, by simp⟩, hlast⟩
    simp only [List.nil_append, List.append_nil, List.singleton_append]
    exact hpath.1.append (.enclose hopened hinner hclosed)

/-! ## What readings give -/

/-- Whenever the reading succeeds among the tokens, it gives such a result. -/
def Yields (text : List Char) (code : List Token) (r : Reading α) (ok : α → Prop) : Prop :=
  ∀ c, Within text code c → Takes r c fun a _ => ok a

variable {ok ok' : α → Prop} {done : β → Prop}

theorem Yields.mono (h : Yields text code r ok) (hok : ∀ a, ok a → ok' a) :
    Yields text code r ok' := fun c hc => (h c hc).mono fun a _ => hok a

theorem Yields.bind {f : α → Reading β} (h : Yields text code r ok)
    (hf : ∀ a, ok a → Yields text code (f a) done) : Yields text code (r >>= f) done :=
  fun c hc => (h c hc).bind fun a _ c' hp ha => hf a ha c' (hc.passes hp)

theorem yields_pure {a : α} (h : ok a) : Yields text code (pure a) ok := fun _ _ => takes_pure h

theorem Yields.map {f : α → β} (h : Yields text code r ok) (hf : ∀ a, ok a → done (f a)) :
    Yields text code (f <$> r) done := by
  rw [map_eq_pure_bind]
  exact h.bind fun a ha => yields_pure (hf a ha)

theorem yields_fail (cause : StatementCause) : Yields text code (fail cause) ok :=
  fun _ _ => takes_fail cause

theorem yields_fail_bind (cause : StatementCause) (f : α → Reading β) :
    Yields text code (fail cause >>= f) done := by
  intro c _ b c' hr
  obtain ⟨_, _, hfail, _⟩ := bind_eq_ok.mp hr
  cases hfail

theorem yields_get {f : Cursor → Reading β} (h : ∀ c, Yields text code (f c) done) :
    Yields text code (get >>= f) done := fun c hc => takes_get (h c c hc)

theorem yields_of_takes {post : Cursor → α → List Token → Prop} (h : ∀ c, Takes r c (post c)) :
    Yields text code r fun _ => True := fun c _ => (h c).mono fun _ _ _ => trivial

theorem yields_line : Yields text code line fun _ => True :=
  yields_get fun _ => yields_pure trivial

/-- Both ways lead on to the same reading. -/
theorem Yields.join {p : Prop} [Decidable p] {r' : Reading α} {f : α → Reading β}
    (h : Yields text code r ok) (h' : Yields text code r' ok)
    (hf : ∀ a, ok a → Yields text code (f a) done) :
    Yields text code (if p then r >>= f else r' >>= f) done := by
  split
  · exact h.bind hf
  · exact h'.bind hf

/-- A condition that has to hold before the reading goes on. -/
theorem yields_unless {p : Prop} [Decidable p] (cause : StatementCause) :
    Yields text code (if p then pure () else fail cause) fun _ => p := by
  split
  · exact yields_pure ‹p›
  · exact yields_fail cause

theorem yields_failIf {p : Prop} [Decidable p] (cause : StatementCause) {f : Unit → Reading β}
    (h : ¬p → Yields text code (f ()) done) :
    Yields text code (if p then fail cause >>= f else f ()) done := by
  split
  · exact yields_fail_bind cause f
  · exact h ‹¬p›

theorem yields_failUnless {p : Prop} [Decidable p] (cause : StatementCause) {f : Unit → Reading β}
    (h : p → Yields text code (f ()) done) :
    Yields text code (if p then f () else fail cause >>= f) done := by
  split
  · exact h ‹p›
  · exact yields_fail_bind cause f

end Reading

/-! ## Bare calls -/

namespace Statement

open Reading

/-- A bare call is an invocation that ends with its statement, together with its text. -/
theorem bareCall?_eq_some_iff {c c' : Cursor} {s : Source} :
    bareCall? c = some (s, c') ↔ c.isAtInvocation = true ∧ ∃ call e, s = .invoke call e ∧
      invocation c = .ok (call, c') ∧ c'.isAtStatementEnd = true ∧
      Cursor.sourceOf? c.source (c.ahead.take (c.ahead.length - c'.ahead.length)) = some e := by
  unfold bareCall?
  constructor
  · intro h
    split at h
    · rename_i hat
      split at h
      · rename_i call c'' hcall
        split at h
        · rename_i hend
          obtain ⟨e, he, hpair⟩ := Option.map_eq_some_iff.mp h
          cases hpair
          exact ⟨hat, call, e, rfl, hcall, hend, he⟩
        · cases h
      · cases h
    · cases h
  · rintro ⟨hat, call, e, rfl, hcall, hend, he⟩
    rw [if_pos hat, StateT.run, hcall]
    dsimp only
    rw [if_pos hend, he]
    rfl

end Statement

end PipelineScript
