import Mathlib
import PipelineScript.Proofs.Statement.Printable

/-! # Reading what was printed

On the tokens of a print the readings succeed and give back what was printed. `Reads` says which
tokens are ahead of a reading and which ones it leaves; the rules follow the way readings are put
together. -/

namespace PipelineScript

open Token PrintItem

/-! ## Where readers stop -/

namespace Token

variable {ts us : List Token} {t : Token}

/-- Behind the tokens of an expression its length is counted on outside of brackets. -/
theorem expressionLength_append {stop : Token → Bool} {stack : List Bracket}
    (h : Lexeme.nest stack (ts.map Token.lexeme) = some [])
    (hlen : expressionLength stop (depthOf stack) ts = ts.length) (us : List Token) :
    expressionLength stop (depthOf stack) (ts ++ us) = ts.length + expressionLength stop 0 us := by
  induction ts generalizing stack with
  | nil =>
    obtain rfl : stack = [] := Option.some.inj h
    rw [List.nil_append, List.length_nil, Nat.zero_add]
    rfl
  | cons t ts ih =>
    rw [expressionLength] at hlen
    rw [List.cons_append, expressionLength]
    split at hlen
    · cases hlen
    · rename_i hgo
      obtain ⟨stack', hn, hrest⟩ := Option.bind_eq_some_iff.mp h
      rw [depthAfter_depthOf hn] at hlen ⊢
      rw [if_neg hgo, ih hrest (Nat.succ.inj hlen), List.length_cons]
      omega

theorem closingDistance?_append {stack : List Bracket}
    (h : Lexeme.nest stack (ts.map Token.lexeme) = some [])
    (ht : t.lexeme.closed? = some .round) (us : List Token) :
    closingDistance? (stack.countP (· == .round)) (ts ++ t :: us) = some ts.length := by
  rw [closingDistance?_through h, closingDistance?_cons, if_pos ⟨rfl, ht⟩]
  rfl

theorem splitRange?_append {stack : List Bracket}
    (h : Lexeme.nest stack (ts.map Token.lexeme) = some [])
    (hnone : splitRange? (depthOf stack) ts = none)
    (ht : (t.isPunct .rangeThrough || t.isPunct .rangeBelow) = true) (us : List Token) :
    splitRange? (depthOf stack) (ts ++ t :: us) = some (ts, t.isPunct .rangeThrough, us) := by
  induction ts generalizing stack with
  | nil =>
    obtain rfl : stack = [] := Option.some.inj h
    rw [List.nil_append, splitRange?, if_pos ⟨rfl, ht⟩]
  | cons u ts ih =>
    rw [splitRange?] at hnone
    split at hnone
    · cases hnone
    · rename_i hgo
      obtain ⟨stack', hn, hrest⟩ := Option.bind_eq_some_iff.mp h
      rw [depthAfter_depthOf hn, Option.map_eq_none_iff] at hnone
      rw [List.cons_append, splitRange?, if_neg hgo, depthAfter_depthOf hn, ih hrest hnone]
      rfl

/-- A dotted name ends before what is no dot. -/
theorem dottedParts_append {more : List String} (h : ts.map Token.lexeme = dotted more)
    (hus : us.head?.any (fun t => t.isPunct .dot) = false) : dottedParts (ts ++ us) = more := by
  induction more generalizing ts with
  | nil =>
    obtain rfl : ts = [] := List.map_eq_nil_iff.mp h
    rw [List.nil_append]
    match us with
    | [] => rfl
    | [u] => rfl
    | u :: ⟨l, _, _, _⟩ :: us =>
      have hu : u.isPunct .dot = false := hus
      cases l with
      | ident s => simp [dottedParts, hu]
      | _ => rfl
  | cons part more ih =>
    have hcons : dotted (part :: more) = .punct .dot :: .ident part :: dotted more := rfl
    rw [hcons] at h
    obtain ⟨d, ts, rfl, hd, h⟩ := List.map_eq_cons_iff.mp h
    obtain ⟨⟨l, _, _, _⟩, ts, rfl, rfl, hmore⟩ := List.map_eq_cons_iff.mp h
    have hdot : d.isPunct .dot = true := decide_eq_true hd
    rw [List.cons_append, List.cons_append, dottedParts, if_pos hdot, ih hmore]

theorem length_dotted {more : List String} (h : ts.map Token.lexeme = dotted more) :
    ts.length = 2 * more.length := by
  have hlen := congrArg List.length h
  rw [List.length_map] at hlen
  rw [hlen, dotted, List.length_flatMap]
  simp
  omega

/-- A statement ends before the tokens. -/
def Stopped (us : List Token) : Prop := us.head?.all Token.isLineEnd = true

theorem Stopped.isPunct (h : Stopped us) (p : Punct) :
    us.head?.any (fun t => t.isPunct p) = false := by
  cases us with
  | nil => rfl
  | cons t us =>
    obtain ⟨l, _, _, _⟩ := t
    cases l <;> first | rfl | cases h

theorem Stopped.isKeyword (h : Stopped us) (k : Keyword) :
    us.head?.any (fun t => t.isKeyword k) = false := by
  cases us with
  | nil => rfl
  | cons t us =>
    obtain ⟨l, _, _, _⟩ := t
    cases l <;> first | rfl | cases h

theorem Stopped.endsExpression (h : Stopped us) (stop : Token → Bool) :
    us.head?.all (fun t => t.endsExpression || stop t) = true := by
  cases us with
  | nil => rfl
  | cons t us =>
    have ht : t.isLineEnd = true := h
    simp [Token.endsExpression, ht]

theorem Stopped.ended (h : Stopped us) :
    ∀ t ∈ us.head?, t.isLineEnd = true ∨ t.isPunct .closeBrace = true := by
  intro t ht
  unfold Stopped at h
  rw [Option.mem_def.mp ht] at h
  exact .inl h

end Token

/-! ## The tokens of a print -/

namespace PrintItem

/-- The lexeme of an item that is one token. -/
def lexeme? : PrintItem → Option Lexeme
  | keyword k => some (.keyword k)
  | name s => some (.ident s)
  | mark p => some (.punct p)
  | key s => some (.str s)
  | feed => some (.lineEnd false)
  | _ => none

end PrintItem

namespace Spelled

variable {text : List Char} {p : PrintItem} {items : List PrintItem} {ts : List Token}

theorem uncons (h : Spelled text (p :: items) ts) :
    ∃ us vs, ts = us ++ vs ∧ p.Spells text us ∧ Spelled text items vs := by
  cases h with
  | cons hp hitems => exact ⟨_, _, rfl, hp, hitems⟩

theorem eq_nil (h : Spelled text [] ts) : ts = [] := by
  cases h
  rfl

/-- An item that is one token. -/
theorem token {l : Lexeme} (h : Spelled text (p :: items) ts) (hp : p.lexeme? = some l) :
    ∃ t us, ts = t :: us ∧ t.lexeme = l ∧ Spelled text items us := by
  obtain ⟨us, vs, rfl, hs, hitems⟩ := h.uncons
  cases p <;> cases hp <;> obtain ⟨t, rfl, ht⟩ := hs <;> exact ⟨t, vs, rfl, ht, hitems⟩

theorem space (h : Spelled text (.space :: items) ts) : Spelled text items ts := by
  obtain ⟨us, vs, rfl, hs, hitems⟩ := h.uncons
  obtain rfl : us = [] := hs
  exact hitems

end Spelled

namespace Reading

variable {α β : Type} {text : List Char} {r : Reading α} {ts us vs : List Token}
  {ok : α → Prop} {done : β → Prop}

/-- Before the tokens `ts`, whatever was passed, the reading succeeds with such a result and stops
before the tokens `us`. -/
def Reads (text : List Char) (r : Reading α) (ts us : List Token) (ok : α → Prop) : Prop :=
  ∀ passed, ∃ a passed', r ⟨text, passed, ts⟩ = .ok (a, ⟨text, passed', us⟩) ∧ ok a

theorem Reads.bind {f : α → Reading β} (h : Reads text r ts us ok)
    (hf : ∀ a, ok a → Reads text (f a) us vs done) : Reads text (r >>= f) ts vs done := by
  intro passed
  obtain ⟨a, passed', ha, hok⟩ := h passed
  obtain ⟨b, passed'', hb, hdone⟩ := hf a hok passed'
  exact ⟨b, passed'', bind_eq_ok.mpr ⟨a, _, ha, hb⟩, hdone⟩

theorem reads_pure {a : α} (h : ok a) : Reads text (pure a) ts ts ok :=
  fun passed => ⟨a, passed, rfl, h⟩

theorem Reads.map {f : α → β} (h : Reads text r ts us ok) (hf : ∀ a, ok a → done (f a)) :
    Reads text (f <$> r) ts us done := by
  rw [map_eq_pure_bind]
  exact h.bind fun a ha => reads_pure (hf a ha)

theorem reads_get {f : Cursor → Reading β}
    (h : ∀ passed, Reads text (f ⟨text, passed, ts⟩) ts us done) :
    Reads text (get >>= f) ts us done := fun passed => h passed passed

theorem advance_append (passed : List Token) :
    Cursor.advance ⟨text, passed, ts ++ us⟩ ts.length = ⟨text, ts.reverse ++ passed, us⟩ := by
  simp [Cursor.advance]

/-! ## Marks and names -/

section

variable {t : Token}

theorem reads_accept {p : Punct} (ht : t.lexeme = .punct p) :
    Reads text (accept p) (t :: us) us (· = true) := by
  intro passed
  refine ⟨true, t :: passed, ?_, rfl⟩
  rw [Twin.accept_eq]
  exact if_pos (decide_eq_true ht)

theorem reads_accept_not {p : Punct} (h : us.head?.any (fun t => t.isPunct p) = false) :
    Reads text (accept p) us us (· = false) := by
  intro passed
  refine ⟨false, passed, ?_, rfl⟩
  rw [Twin.accept_eq]
  exact if_neg (Bool.eq_false_iff.mp h)

theorem reads_mark {p : Punct} (ht : t.lexeme = .punct p) (what : String) :
    Reads text (mark p what) (t :: us) us fun _ => True :=
  (reads_accept ht).bind fun found hfound => by
    subst hfound
    exact reads_pure trivial

theorem reads_acceptKeyword {k : Keyword} (ht : t.lexeme = .keyword k) :
    Reads text (acceptKeyword k) (t :: us) us (· = true) := by
  intro passed
  refine ⟨true, t :: passed, ?_, rfl⟩
  rw [Twin.acceptKeyword_eq]
  exact if_pos (decide_eq_true ht)

theorem reads_acceptKeyword_not {k : Keyword} (h : us.head?.any (fun t => t.isKeyword k) = false) :
    Reads text (acceptKeyword k) us us (· = false) := by
  intro passed
  refine ⟨false, passed, ?_, rfl⟩
  rw [Twin.acceptKeyword_eq]
  exact if_neg (Bool.eq_false_iff.mp h)

theorem reads_keyword {k : Keyword} (ht : t.lexeme = .keyword k) :
    Reads text (keyword k) (t :: us) us fun _ => True :=
  (reads_acceptKeyword ht).bind fun found hfound => by
    subst hfound
    exact reads_pure trivial

theorem reads_name {s : String} (ht : t.lexeme = .ident s) (what : String) :
    Reads text (name what) (t :: us) us (· = s) :=
  fun passed => ⟨s, t :: passed, name_eq ht what text passed us, rfl⟩

theorem reads_dottedName {first : String} {more : List String}
    (h : ts.map Token.lexeme = .ident first :: dotted more)
    (hus : us.head?.any (fun t => t.isPunct .dot) = false) (what : String) :
    Reads text (dottedName what) (ts ++ us) us (· = first :: more) := by
  match ts, h with
  | t :: ts, h =>
    obtain ⟨ht, h⟩ := List.cons.inj h
    intro passed
    refine ⟨first :: more, ts.reverse ++ t :: passed, ?_, rfl⟩
    rw [List.cons_append, dottedName_eq ht, dottedParts_append h hus, ← length_dotted h,
      advance_append]

end

theorem reads_skipWhile {p : Token → Bool} (hts : ∀ t ∈ ts, p t = true)
    (hus : us.head?.any p = false) : Reads text (skipWhile p) (ts ++ us) us fun _ => True := by
  intro passed
  refine ⟨(), ts.reverse ++ passed, ?_, trivial⟩
  have hrun : (ts ++ us).takeWhile p = ts := by
    rw [List.takeWhile_append_of_pos hts]
    cases us with
    | nil => simp
    | cons u us => rw [List.takeWhile_cons_of_neg (by simpa using hus), List.append_nil]
  have hskip : skipWhile p ⟨text, passed, ts ++ us⟩ =
      .ok ((), Cursor.advance ⟨text, passed, ts ++ us⟩ ((ts ++ us).takeWhile p).length) := rfl
  rw [hskip, hrun, advance_append]

theorem reads_skipOne {p : Token → Bool} {t : Token} (ht : p t = true)
    (hus : us.head?.any p = false) : Reads text (skipWhile p) (t :: us) us fun _ => True :=
  reads_skipWhile (List.forall_mem_singleton.mpr ht) hus

theorem reads_line {t : Token} : Reads text Reading.line (t :: us) (t :: us) (· = t.line) :=
  fun passed => ⟨t.line, passed, rfl, rfl⟩

/-! ## Expressions -/

theorem reads_take (ts us : List Token) : Reads text (take ts.length) (ts ++ us) us (· = ts) := by
  intro passed
  refine ⟨ts, ts.reverse ++ passed, ?_, rfl⟩
  have htake : take ts.length ⟨text, passed, ts ++ us⟩ = .ok ((ts ++ us).take ts.length,
      Cursor.advance ⟨text, passed, ts ++ us⟩ ts.length) := rfl
  rw [htake, List.take_left, advance_append]

theorem reads_advance (t : Token) (us : List Token) :
    Reads text (advance 1) (t :: us) us fun _ => True :=
  fun passed => ⟨(), t :: passed, rfl, trivial⟩

theorem reads_expressionTokens {stop : Token → Bool}
    (hlen : expressionLength stop 0 (ts ++ us) = ts.length) :
    Reads text (expressionTokens stop) (ts ++ us) us (· = ts) := by
  refine reads_get fun passed => ?_
  rw [hlen]
  exact reads_take ts us

theorem reads_sourceOf {e : SourceExpr} (h : Cursor.sourceOf? text ts = some e)
    (cause : StatementCause) : Reads text (sourceOf ts cause) us us (· = e) :=
  fun passed => ⟨e, passed, sourceOf_eq_ok.mpr ⟨h, rfl⟩, rfl⟩

section

variable {e : SourceExpr} {stop : Token → Bool} {own : List Token}

theorem quotes_of_spells (h : (PrintItem.expr e).Spells text ts) (hown : e.Owns own) :
    Quotes text e own ts := by
  obtain ⟨own', hquotes⟩ := h
  obtain rfl : own' = own := Except.ok.inj (hquotes.tokens.symm.trans hown.tokens)
  exact hquotes

theorem length_of_fills (hstop : ∀ t t' : Token, t.lexeme.Alike t'.lexeme → stop t' = stop t)
    (h : e.Fills stop own) (hquotes : Quotes text e own ts) :
    expressionLength stop 0 ts = ts.length := by
  rw [hquotes.expressionLength hstop, h.length, hquotes.length_eq]

theorem sourceOf?_of_fills (h : e.Fills stop own) (hquotes : Quotes text e own ts) :
    Cursor.sourceOf? text ts = some e := by rw [hquotes.sourceOf?, h.slice]

/-- An expression begins with a token that does not end one. -/
theorem exists_cons_of_fills
    (hstop : ∀ t t' : Token, t.lexeme.Alike t'.lexeme → stop t' = stop t) (h : e.Fills stop own)
    (hquotes : Quotes text e own ts) : ∃ t rest, ts = t :: rest ∧ t.endsExpression = false := by
  cases ts with
  | nil => cases sourceOf?_of_fills h hquotes
  | cons t rest =>
    refine ⟨t, rest, rfl, ?_⟩
    have hlen := length_of_fills hstop h hquotes
    rw [expressionLength] at hlen
    split at hlen
    · cases hlen
    · rename_i hgo
      cases he : t.endsExpression with
      | false => rfl
      | true => exact absurd ⟨rfl, by rw [he]; rfl⟩ hgo

theorem reads_expression
    (hstop : ∀ t t' : Token, t.lexeme.Alike t'.lexeme → stop t' = stop t) (h : e.Before stop)
    (hs : (PrintItem.expr e).Spells text ts)
    (hus : us.head?.all (fun t => t.endsExpression || stop t) = true) (what : String) :
    Reads text (expression stop what) (ts ++ us) us (· = e) := by
  obtain ⟨own, hfills⟩ := h
  have hquotes := quotes_of_spells hs hfills.toOwns
  have hlen : expressionLength stop 0 (ts ++ us) = ts.length := by
    have happend := @expressionLength_append ts stop [] hquotes.balanced
      (length_of_fills hstop hfills hquotes) us
    rw [expressionLength_eq_zero hus, Nat.add_zero] at happend
    exact happend
  refine (reads_expressionTokens hlen).bind fun tokens htokens => ?_
  subst htokens
  exact reads_sourceOf (sourceOf?_of_fills hfills hquotes) _

theorem reads_restOfStatement (h : e.OnLine) (hs : (PrintItem.expr e).Spells text ts)
    (hus : Stopped us) (what : String) :
    Reads text (restOfStatement what) (ts ++ us) us (· = e) :=
  reads_expression (fun _ _ _ => rfl) h hs (hus.endsExpression _) what

theorem reads_parenthesized (hs : Spelled text (PrintItem.parenthesized e) ts) (what : String) :
    Reads text (parenthesized what) (ts ++ us) us (· = e) := by
  obtain ⟨first, ts, rfl, hfirst, hs⟩ := hs.token rfl
  obtain ⟨inner, ts, rfl, ⟨hslice, hbalanced⟩, hs⟩ := hs.uncons
  obtain ⟨last, ts, rfl, hlast, hs⟩ := hs.token rfl
  obtain rfl := hs.eq_nil
  have hclose : closingDistance? 0 (inner ++ last :: us) = some inner.length :=
    closingDistance?_append hbalanced (by rw [hlast]; rfl) us
  rw [List.cons_append, List.append_assoc, List.singleton_append]
  refine (reads_mark hfirst _).bind fun _ _ => reads_get fun passed => ?_
  dsimp only
  rw [hclose]
  refine (reads_take inner _).bind fun tokens htokens => ?_
  subst htokens
  refine (reads_sourceOf hslice _).bind fun inner hinner => ?_
  exact (reads_advance last us).bind fun _ _ => reads_pure hinner

/-! ## Invocations -/

theorem reads_arguments {es : List SourceExpr} {n : Nat}
    (hargs : ∀ x ∈ e :: es, x.Before fun t => t.isPunct .comma)
    (hs : Spelled text (closed ((e :: es).map expr)) ts) (hn : ts.length ≤ n) :
    Reads text (arguments n) (ts ++ us) us (· = e :: es) := by
  have hstop : ∀ t t' : Token, t.lexeme.Alike t'.lexeme → t'.isPunct .comma = t.isPunct .comma :=
    fun _ _ h => isPunct_alike h _
  induction es generalizing e ts n with
  | nil =>
    obtain ⟨first, ts, rfl, hfirst, hs⟩ := hs.uncons
    obtain ⟨last, ts, rfl, hlast, hs⟩ := hs.token rfl
    obtain rfl := hs.eq_nil
    rw [List.length_append, List.length_singleton] at hn
    obtain ⟨n, rfl⟩ : ∃ m, n = m + 1 := ⟨n - 1, by omega⟩
    unfold arguments
    rw [List.append_assoc]
    refine (reads_expression hstop (hargs e (by simp)) hfirst ?_ _).bind fun a ha => ?_
    · simp [endsExpression, closes, Token.isPunct, hlast]
    refine (reads_accept_not ?_).bind fun found hfound => ?_
    · simp [Token.isPunct, hlast]
    subst hfound
    refine (reads_mark hlast _).bind fun _ _ => reads_pure ?_
    rw [ha]
  | cons e' es ih =>
    obtain ⟨first, ts, rfl, hfirst, hs⟩ := hs.uncons
    obtain ⟨comma, ts, rfl, hcomma, hs⟩ := hs.token rfl
    obtain ⟨hfits, hmore⟩ := List.forall_mem_cons.mp hargs
    rw [List.length_append, List.length_cons] at hn
    obtain ⟨n, rfl⟩ : ∃ m, n = m + 1 := ⟨n - 1, by omega⟩
    unfold arguments
    rw [List.append_assoc]
    refine (reads_expression hstop hfits hfirst ?_ _).bind fun a ha => ?_
    · simp [Token.isPunct, hcomma]
    refine (reads_accept hcomma).bind fun found hfound => ?_
    subst hfound
    refine (ih hmore hs.space (by omega)).bind fun more hm => reads_pure ?_
    rw [ha, hm]

theorem reads_invocation {call : Invocation} (h : call.Printable)
    (hs : Spelled text call.items ts) : Reads text invocation (ts ++ us) us (· = call) := by
  obtain ⟨path, ts, rfl, ⟨first, more, hname, hpath⟩, hs⟩ := hs.uncons
  obtain ⟨paren, ts, rfl, hparen, hs⟩ := hs.token rfl
  obtain ⟨name, args⟩ := call
  unfold invocation
  rw [List.append_assoc]
  refine (reads_dottedName hpath ?_ _).bind fun parts hparts => ?_
  · simp [Token.isPunct, hparen]
  refine (reads_mark hparen _).bind fun _ _ => ?_
  cases args with
  | nil =>
    obtain ⟨last, ts, rfl, hlast, hs⟩ := hs.token rfl
    obtain rfl := hs.eq_nil
    refine (reads_accept hlast).bind fun found hfound => ?_
    subst hfound
    refine reads_pure ?_
    rw [hparts, ← hname]
  | cons e es =>
    obtain ⟨own, hfills⟩ := h.args e List.mem_cons_self
    obtain ⟨arg, rest, hrow, harg, -⟩ := hs.uncons
    obtain ⟨t, arg', rfl, ht⟩ := exists_cons_of_fills (fun _ _ h => isPunct_alike h _) hfills
      (quotes_of_spells harg hfills.toOwns)
    have hparen : (ts ++ us).head?.any (fun t => t.isPunct .closeParen) = false := by
      simp only [endsExpression, closes, Bool.or_eq_false_iff] at ht
      rw [hrow]
      exact ht.2.1
    refine (reads_accept_not hparen).bind fun found hfound => ?_
    subst hfound
    refine reads_get fun passed => (reads_arguments h.args hs ?_).bind fun args hargs => ?_
    · exact (List.length_append ▸ Nat.le_add_right _ _)
    · refine reads_pure ?_
      rw [hparts, ← hname, hargs]

end

end Reading

namespace Statement

open Reading

variable {text : List Char} {ts us : List Token}

/-! ## Values -/

theorem isAtKeyword_of_bareCall? {c c' : Cursor} {s : Source} (h : bareCall? c = some (s, c'))
    (k : Keyword) : c.isAtKeyword k = false := by
  have hat := (bareCall?_eq_some_iff.mp h).1
  unfold Cursor.isAtInvocation at hat
  split at hat
  · rename_i hahead
    rw [Cursor.isAtKeyword, Cursor.head?, hahead]
    rfl
  · cases hat

theorem reads_readSource {s : Source} (h : s.Printable) (hs : Spelled text s.items ts)
    (hus : Stopped us) : Reads text readSource (ts ++ us) us (· = s) := by
  unfold readSource
  cases s with
  | expr e =>
    obtain ⟨own, hfills, hrun, hnone⟩ := h
    obtain ⟨used, ts, rfl, hspells, hs⟩ := hs.uncons
    obtain rfl := hs.eq_nil
    rw [List.append_nil]
    have hquotes := quotes_of_spells hspells hfills.toOwns
    have hfacing (passed : List Token) :=
      hquotes.facing hus.ended (c := ⟨text, passed, used ++ us⟩) rfl rfl
    refine (reads_acceptKeyword_not ?_).bind fun found hfound => ?_
    · rw [← hrun]
      exact (hfacing []).isAtKeyword .run
    subst hfound
    refine reads_get fun passed => ?_
    have hnone' : bareCall? ⟨text, passed, used ++ us⟩ = none := by
      obtain ⟨-, hnone'⟩ | ⟨s₁, s₂, c₁, c₂, hs₁, -⟩ := bareCall?_mirror (hfacing passed)
      · exact hnone'
      · cases hnone.symm.trans hs₁
    rw [hnone']
    refine (reads_restOfStatement ⟨own, hfills⟩ hspells hus _).bind fun e he => reads_pure ?_
    rw [he]
  | run call =>
    obtain ⟨run, ts, rfl, hrun, hs⟩ := hs.token rfl
    refine (reads_acceptKeyword hrun).bind fun found hfound => ?_
    subst hfound
    refine (reads_invocation h hs.space).bind fun call hcall => reads_pure ?_
    rw [hcall]
  | invoke call e =>
    obtain ⟨own, c, howns, hcall, hend⟩ := h
    obtain ⟨used, ts, rfl, hspells, hs⟩ := hs.uncons
    obtain rfl := hs.eq_nil
    rw [List.append_nil]
    have hquotes := quotes_of_spells hspells howns
    have hfacing (passed : List Token) :=
      hquotes.facing hus.ended (c := ⟨text, passed, used ++ us⟩) rfl rfl
    refine (reads_acceptKeyword_not ?_).bind fun found hfound => ?_
    · rw [← isAtKeyword_of_bareCall? hcall .run]
      exact (hfacing []).isAtKeyword .run
    subst hfound
    refine reads_get fun passed => ?_
    obtain ⟨hnone, -⟩ | ⟨s₁, s₂, c₁, c₂, hs₁, hs₂, hsame, hc₂, -⟩ :=
      bareCall?_mirror (hfacing passed)
    · cases hnone.symm.trans hcall
    cases hs₁.symm.trans hcall
    rw [View.source_withoutLines, View.source_withoutLines] at hsame
    obtain ⟨ps, hrow, hrow', -⟩ := hc₂.row
    obtain rfl : ps = [] := List.map_eq_nil_iff.mp (hrow.symm.trans hend)
    obtain ⟨source, passed', ahead⟩ := c₂
    obtain rfl : source = text := hc₂.source'
    obtain rfl : ahead = us := hrow'
    rw [hs₂, hsame]
    exact fun _ => ⟨_, passed', rfl, rfl⟩

end Statement

end PipelineScript
