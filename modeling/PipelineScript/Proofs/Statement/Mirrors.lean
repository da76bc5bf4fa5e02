import PipelineScript.Proofs.Statement.Reading
import PipelineScript.Proofs.Statement.Views

/-! # Reading two texts side by side

Readings see the lexemes of the tokens ahead, keep lines and slices of the text, and use nothing
else. When the tokens of one text mirror those of another, the readings of a statement without a
block succeed on both or on neither, and their results look alike (`Twin.Agree`). The second text
may go on behind the tokens of the first: where these end, a statement ends there. -/

namespace PipelineScript

/-- The same lexeme, or two statement ends. -/
inductive Lexeme.Alike : Lexeme → Lexeme → Prop
  | refl (l : Lexeme) : Alike l l
  | lineEnd (a b : Bool) : Alike (.lineEnd a) (.lineEnd b)

namespace Token

variable {t t' : Token}

theorem isPunct_alike (h : t.lexeme.Alike t'.lexeme) (p : Punct) : t'.isPunct p = t.isPunct p := by
  obtain ⟨l, _, _, _⟩ := t
  obtain ⟨l', _, _, _⟩ := t'
  cases h <;> rfl

theorem isKeyword_alike (h : t.lexeme.Alike t'.lexeme) (k : Keyword) :
    t'.isKeyword k = t.isKeyword k := by
  obtain ⟨l, _, _, _⟩ := t
  obtain ⟨l', _, _, _⟩ := t'
  cases h <;> rfl

theorem isLineEnd_alike (h : t.lexeme.Alike t'.lexeme) : t'.isLineEnd = t.isLineEnd := by
  obtain ⟨l, _, _, _⟩ := t
  obtain ⟨l', _, _, _⟩ := t'
  cases h <;> rfl

theorem endsExpression_alike (h : t.lexeme.Alike t'.lexeme) :
    t'.endsExpression = t.endsExpression := by
  simp only [endsExpression, closes, isLineEnd_alike h, isPunct_alike h]

theorem depthAfter_alike (h : t.lexeme.Alike t'.lexeme) (depth : Nat) :
    t'.depthAfter depth = t.depthAfter depth := by
  have ho : t'.opens = t.opens := by simp only [opens, isPunct_alike h]
  have hc : t'.closes = t.closes := by simp only [closes, isPunct_alike h]
  rw [depthAfter, depthAfter, ho, hc]

theorem length_dottedParts (ts : List Token) : 2 * (dottedParts ts).length ≤ ts.length := by
  fun_induction dottedParts ts with
  | case1 dot name _ _ _ rest _ ih => simp only [List.length_cons]; omega
  | case2 => exact Nat.zero_le _
  | case3 => exact Nat.zero_le _

theorem expressionLength_le (stop : Token → Bool) (depth : Nat) (ts : List Token) :
    expressionLength stop depth ts ≤ ts.length := by
  induction ts generalizing depth with
  | nil => exact Nat.le_refl _
  | cons t ts ih =>
    rw [expressionLength]
    split
    · exact Nat.zero_le _
    · exact Nat.succ_le_succ (ih _)

end Token

/-- Two texts that are read side by side, each with the view it is looked at through. Behind the
tokens of the second one stands `tail`, which begins where a statement may end. -/
structure Twin where
  view : View
  view' : View
  text : List Char
  text' : List Char
  tail : List Token
  ended : ∀ t ∈ tail.head?, t.isLineEnd = true ∨ t.isPunct .closeBrace = true

namespace Twin

variable {w : Twin} {ps qs : List (Token × Token)} {c c' c₁ c₁' : Cursor} {α α' β β' : Type}

/-! ## Mirrored tokens -/

/-- Tokens of both texts, pair by pair: they have the same lexemes, and lines and slices look
alike. -/
structure Mirror (w : Twin) (ps : List (Token × Token)) : Prop where
  lexeme : ∀ p ∈ ps, p.1.lexeme.Alike p.2.lexeme
  line : ∀ p ∈ ps, w.view'.line p.2.line = w.view.line p.1.line
  slice : ∀ qs, qs <:+: ps →
    (Cursor.sourceOf? w.text' (qs.map Prod.snd)).map w.view'.expr =
      (Cursor.sourceOf? w.text (qs.map Prod.fst)).map w.view.expr

theorem Mirror.row (h : w.Mirror ps) (hqs : qs <:+: ps) : w.Mirror qs where
  lexeme p hp := h.lexeme p (hqs.subset hp)
  line p hp := h.line p (hqs.subset hp)
  slice _ hrs := h.slice _ (hrs.trans hqs)

/-- The second cursor stands before the mirror of what is ahead of the first one. -/
structure Facing (w : Twin) (c c' : Cursor) : Prop where
  source : c.source = w.text
  source' : c'.source = w.text'
  row : ∃ ps, c.ahead = ps.map Prod.fst ∧ c'.ahead = ps.map Prod.snd ++ w.tail ∧ w.Mirror ps
  nest : ∃ open_, Lexeme.nest open_ (c.ahead.map Token.lexeme) = some []

theorem Facing.advance (h : w.Facing c c') {n : Nat} (hn : n ≤ c.ahead.length) :
    w.Facing (c.advance n) (c'.advance n) := by
  obtain ⟨ps, hc, hc', hm⟩ := h.row
  rw [hc, List.length_map] at hn
  refine ⟨h.source, h.source', ⟨ps.drop n, ?_, ?_, hm.row (List.drop_suffix n ps).isInfix⟩, ?_⟩
  · simp [Cursor.advance, hc]
  · simp only [Cursor.advance, hc']
    rw [List.drop_append_of_le_length (by simpa using hn), List.map_drop]
  · obtain ⟨open_, hnest⟩ := h.nest
    rw [← List.take_append_drop n c.ahead, List.map_append, Lexeme.nest_append] at hnest
    obtain ⟨rest, -, hrest⟩ := Option.bind_eq_some_iff.mp hnest
    exact ⟨rest, hrest⟩

/-- Both cursors stand before tokens alike, or the first one stands at the end. -/
theorem Facing.head (h : w.Facing c c') :
    (c.ahead = [] ∧ c'.ahead = w.tail) ∨ ∃ t t', c.head? = some t ∧ c'.head? = some t' ∧
      t.lexeme.Alike t'.lexeme ∧ w.view'.line t'.line = w.view.line t.line := by
  obtain ⟨ps, hc, hc', hm⟩ := h.row
  cases ps with
  | nil => exact .inl ⟨hc, hc'⟩
  | cons p ps =>
    refine .inr ⟨p.1, p.2, ?_, ?_, hm.lexeme p (by simp), hm.line p (by simp)⟩
    · rw [Cursor.head?, hc]; rfl
    · rw [Cursor.head?, hc']; rfl

theorem Facing.head_of_ne_nil (h : w.Facing c c') (hc : c.ahead ≠ []) :
    ∃ t t', c.head? = some t ∧ c'.head? = some t' ∧ t.lexeme.Alike t'.lexeme ∧
      w.view'.line t'.line = w.view.line t.line := by
  obtain ⟨hnil, -⟩ | hhead := h.head
  · exact absurd hnil hc
  · exact hhead

/-- What the tail begins with. -/
theorem tail_lexeme (w : Twin) : w.tail.head?.map Token.lexeme = none ∨
    (∃ b, w.tail.head?.map Token.lexeme = some (.lineEnd b)) ∨
      w.tail.head?.map Token.lexeme = some (.punct .closeBrace) := by
  cases ht : w.tail.head? with
  | none => exact .inl rfl
  | some t =>
    refine .inr ((w.ended t ht).imp (fun hl => ?_) fun hb => ?_)
    · obtain ⟨l, _, _, _⟩ := t
      cases l with
      | lineEnd b => exact ⟨b, rfl⟩
      | _ => cases hl
    · rw [Option.map_some, of_decide_eq_true hb]

theorem tail_isPunct (w : Twin) {p : Punct} (hp : p ≠ .closeBrace) :
    (w.tail.head?.any fun t => t.isPunct p) = false := by
  have htail := w.tail_lexeme
  cases ht : w.tail.head? with
  | none => rfl
  | some t =>
    rw [ht] at htail
    obtain h | ⟨b, h⟩ | h := htail
    · cases h
    · simp [Token.isPunct, Option.some.inj h]
    · simp [Token.isPunct, Option.some.inj h, Ne.symm hp]

theorem tail_isKeyword (w : Twin) (k : Keyword) :
    (w.tail.head?.any fun t => t.isKeyword k) = false := by
  have htail := w.tail_lexeme
  cases ht : w.tail.head? with
  | none => rfl
  | some t =>
    rw [ht] at htail
    obtain h | ⟨b, h⟩ | h := htail
    · cases h
    · simp [Token.isKeyword, Option.some.inj h]
    · simp [Token.isKeyword, Option.some.inj h]

theorem Facing.isAtMark (h : w.Facing c c') {p : Punct} (hp : p ≠ .closeBrace ∨ c.ahead ≠ []) :
    c'.isAtMark p = c.isAtMark p := by
  unfold Cursor.isAtMark
  obtain ⟨hc, hc'⟩ | ⟨t, t', ht, ht', hl, -⟩ := h.head
  · rw [Cursor.head?, Cursor.head?, hc, hc']
    exact w.tail_isPunct (hp.resolve_right fun hne => hne hc)
  · rw [ht, ht']
    exact Token.isPunct_alike hl p

theorem Facing.isAtKeyword (h : w.Facing c c') (k : Keyword) :
    c'.isAtKeyword k = c.isAtKeyword k := by
  unfold Cursor.isAtKeyword
  obtain ⟨hc, hc'⟩ | ⟨t, t', ht, ht', hl, -⟩ := h.head
  · rw [Cursor.head?, Cursor.head?, hc, hc']
    exact w.tail_isKeyword k
  · rw [ht, ht']
    exact Token.isKeyword_alike hl k

theorem Facing.isAtStatementEnd (h : w.Facing c c') :
    c'.isAtStatementEnd = c.isAtStatementEnd := by
  unfold Cursor.isAtStatementEnd
  obtain ⟨hc, hc'⟩ | ⟨t, t', ht, ht', hl, -⟩ := h.head
  · rw [Cursor.head?, Cursor.head?, hc, hc']
    cases htail : w.tail.head? with
    | none => rfl
    | some t =>
      have hend := w.ended t htail
      simpa using hend
  · rw [ht, ht', Option.all_some, Option.all_some, Token.isLineEnd_alike hl,
      Token.isPunct_alike hl]

theorem Facing.isAtInvocation (h : w.Facing c c') : c'.isAtInvocation = c.isAtInvocation := by
  obtain ⟨ps, hc, hc', hm⟩ := h.row
  unfold Cursor.isAtInvocation
  rw [hc, hc']
  have hparen := w.tail_isPunct (p := .openParen) (by decide)
  match ps with
  | [] =>
    have htail := w.tail_lexeme
    cases ht : w.tail with
    | nil => rfl
    | cons t ts =>
      rw [ht] at htail
      obtain ⟨l, _, _, _⟩ := t
      obtain h | ⟨b, h⟩ | h := htail <;> cases h <;> rfl
  | [p] =>
    have hl := hm.lexeme p (by simp)
    obtain ⟨⟨l, _, _, _⟩, ⟨l', _, _, _⟩⟩ := p
    cases hl with
    | lineEnd => rfl
    | refl =>
      cases ht : w.tail with
      | nil => cases l <;> rfl
      | cons t ts =>
        rw [ht] at hparen
        cases l <;> first | rfl | exact hparen
  | p :: q :: rest =>
    have hl := hm.lexeme p (by simp)
    have hq := Token.isPunct_alike (hm.lexeme q (by simp)) .openParen
    obtain ⟨⟨l, _, _, _⟩, ⟨l', _, _, _⟩⟩ := p
    cases hl with
    | lineEnd => rfl
    | refl => cases l <;> first | rfl | exact hq

/-! ## Readings that agree -/

/-- Both results are faults, or they are alike and the cursors face each other behind them. -/
inductive Matched (w : Twin) (rel : α → α' → Prop) (bound : Nat) :
    Except Diagnostic (α × Cursor) → Except Diagnostic (α' × Cursor) → Prop
  | ok {a : α} {a' : α'} {c c' : Cursor} : rel a a' → w.Facing c c' → c.ahead.length ≤ bound →
      Matched w rel bound (.ok (a, c)) (.ok (a', c'))
  | error {d d' : Diagnostic} : Matched w rel bound (.error d) (.error d')

/-- The readings succeed on both texts, with results alike, or on neither. -/
def Agree (w : Twin) (rel : α → α' → Prop) (r : Reading α) (r' : Reading α') (c c' : Cursor) :
    Prop := w.Matched rel c.ahead.length (r c) (r' c')

variable {rel : α → α' → Prop} {rel' : β → β' → Prop} {r : Reading α} {r' : Reading α'}

/-- The second readings start where the first ones stopped, which is not further back. -/
theorem Agree.bind_onward {f : α → Reading β} {f' : α' → Reading β'} (h : w.Agree rel r r' c c')
    (hf : ∀ {a a' c₁ c₁'}, rel a a' → w.Facing c₁ c₁' → r c = .ok (a, c₁) →
      c₁.ahead.length ≤ c.ahead.length → w.Agree rel' (f a) (f' a') c₁ c₁') :
    w.Agree rel' (r >>= f) (r' >>= f') c c' := by
  show w.Matched rel' _ (r c >>= fun s => f s.1 s.2) (r' c' >>= fun s => f' s.1 s.2)
  unfold Agree at h
  generalize hx : r c = x at h
  generalize r' c' = x' at h
  cases h with
  | error => exact .error
  | @ok a a' c₁ c₁' ha hc hlen =>
    have hrest := hf ha hc hx hlen
    show w.Matched rel' _ (f a c₁) (f' a' c₁')
    unfold Agree at hrest
    generalize f a c₁ = y at hrest
    generalize f' a' c₁' = y' at hrest
    cases hrest with
    | error => exact .error
    | ok hb hc₂ hlen' => exact .ok hb hc₂ (Nat.le_trans hlen' hlen)

theorem Agree.bind {f : α → Reading β} {f' : α' → Reading β'} (h : w.Agree rel r r' c c')
    (hf : ∀ {a a' c₁ c₁'}, rel a a' → w.Facing c₁ c₁' → w.Agree rel' (f a) (f' a') c₁ c₁') :
    w.Agree rel' (r >>= f) (r' >>= f') c c' :=
  h.bind_onward fun ha hc _ _ => hf ha hc

theorem agree_pure {a : α} {a' : α'} (h : rel a a') (hc : w.Facing c c') :
    w.Agree rel (pure a) (pure a') c c' := .ok h hc (Nat.le_refl _)

theorem agree_fail (cause cause' : StatementCause) :
    w.Agree rel (Reading.fail cause) (Reading.fail cause') c c' := .error

theorem agree_get {f : Cursor → Reading β} {f' : Cursor → Reading β'}
    (h : w.Agree rel' (f c) (f' c') c c') : w.Agree rel' (get >>= f) (get >>= f') c c' := h

theorem agree_advance (hc : w.Facing c c') {n : Nat} (hn : n ≤ c.ahead.length) :
    w.Agree (fun _ _ => True) (Reading.advance n) (Reading.advance n) c c' :=
  .ok trivial (hc.advance hn) (by simp [Cursor.advance])

theorem Agree.map {f : α → β} {f' : α' → β'} (h : w.Agree rel r r' c c')
    (hf : ∀ a a', rel a a' → rel' (f a) (f' a')) : w.Agree rel' (f <$> r) (f' <$> r') c c' := by
  rw [map_eq_pure_bind, map_eq_pure_bind]
  exact h.bind fun ha hc => agree_pure (hf _ _ ha) hc

/-- Whichever way both readings take, they go on in the same way. -/
theorem Agree.join {p : Prop} [Decidable p] {s : Reading α} {s' : Reading α'}
    {f : α → Reading β} {f' : α' → Reading β'} (h : w.Agree rel r r' c c')
    (h' : w.Agree rel s s' c c')
    (hf : ∀ {a a' c₁ c₁'}, rel a a' → w.Facing c₁ c₁' → w.Agree rel' (f a) (f' a') c₁ c₁') :
    w.Agree rel' (if p then r >>= f else s >>= f) (if p then r' >>= f' else s' >>= f') c c' := by
  split
  · exact h.bind hf
  · exact h'.bind hf

open Reading

/-! ## Marks and names -/

theorem agree_next (hc : w.Facing c c') (hne : c.ahead ≠ []) :
    w.Agree (fun _ _ => True) (advance 1) (advance 1) c c' :=
  agree_advance hc (List.length_pos_iff.mpr hne)

theorem ne_nil_of_isAtMark {p : Punct} (h : c.isAtMark p = true) : c.ahead ≠ [] := by
  intro hnil
  rw [Cursor.isAtMark, Cursor.head?, hnil] at h
  cases h

theorem ne_nil_of_isAtKeyword {k : Keyword} (h : c.isAtKeyword k = true) : c.ahead ≠ [] := by
  intro hnil
  rw [Cursor.isAtKeyword, Cursor.head?, hnil] at h
  cases h

theorem agree_accept (hc : w.Facing c c') {p : Punct} (hp : p ≠ .closeBrace ∨ c.ahead ≠ []) :
    w.Agree Eq (accept p) (accept p) c c' := by
  unfold accept
  refine agree_get ?_
  rw [hc.isAtMark hp]
  split
  · rename_i h
    exact (agree_next hc (ne_nil_of_isAtMark h)).bind fun _ hc₁ => agree_pure rfl hc₁
  · exact agree_pure rfl hc

theorem agree_acceptKeyword (hc : w.Facing c c') (k : Keyword) :
    w.Agree Eq (acceptKeyword k) (acceptKeyword k) c c' := by
  unfold acceptKeyword
  refine agree_get ?_
  rw [hc.isAtKeyword]
  split
  · rename_i h
    exact (agree_next hc (ne_nil_of_isAtKeyword h)).bind fun _ hc₁ => agree_pure rfl hc₁
  · exact agree_pure rfl hc

/-- What was found has to be there. -/
theorem agree_unless {found found' : Bool} (h : found = found') (hc : w.Facing c c')
    (cause cause' : StatementCause) :
    w.Agree (fun _ _ => True) (if found = true then pure () else fail cause)
      (if found' = true then pure () else fail cause') c c' := by
  subst h
  split
  · exact agree_pure trivial hc
  · exact agree_fail _ _

theorem agree_mark (hc : w.Facing c c') {p : Punct} (hp : p ≠ .closeBrace ∨ c.ahead ≠ [])
    (what : String) : w.Agree (fun _ _ => True) (mark p what) (mark p what) c c' :=
  (agree_accept hc hp).bind fun h hc₁ => agree_unless h hc₁ _ _

theorem agree_keyword (hc : w.Facing c c') (k : Keyword) :
    w.Agree (fun _ _ => True) (keyword k) (keyword k) c c' :=
  (agree_acceptKeyword hc k).bind fun h hc₁ => agree_unless h hc₁ _ _

theorem agree_name (hc : w.Facing c c') (what : String) :
    w.Agree Eq (name what) (name what) c c' := by
  unfold name
  refine agree_get ?_
  obtain ⟨hnil, hc'⟩ | ⟨t, t', ht, ht', hl, -⟩ := hc.head
  · have htail := w.tail_lexeme
    rw [← hc', ← Cursor.head?] at htail
    rw [Cursor.head?, hnil]
    obtain h | ⟨b, h⟩ | h := htail <;> rw [h] <;> exact agree_fail _ _
  · have hne : c.ahead ≠ [] := by
      intro hnil
      rw [Cursor.head?, hnil] at ht
      cases ht
    rw [ht, ht', Option.map_some, Option.map_some]
    generalize t.lexeme = l at hl
    generalize t'.lexeme = l' at hl
    cases hl with
    | lineEnd => exact agree_fail _ _
    | refl =>
      cases l with
      | ident s =>
        exact (agree_next hc hne).bind fun _ hc₁ => agree_pure rfl hc₁
      | _ => exact agree_fail _ _

theorem Facing.dottedParts (hc : w.Facing c c') :
    Token.dottedParts c'.ahead = Token.dottedParts c.ahead := by
  obtain ⟨ps, hc, hc', hm⟩ := hc.row
  rw [hc, hc']
  have hdot := w.tail_isPunct (p := .dot) (by decide)
  have htail := w.tail_lexeme
  clear hc hc'
  induction hn : ps.length using Nat.strongRecOn generalizing ps with
  | ind n ih =>
    match ps with
    | [] =>
      match hw : w.tail with
      | [] => rfl
      | [u] => rfl
      | u :: ⟨l, _, _, _⟩ :: rest =>
        rw [hw] at hdot
        have hu : u.isPunct .dot = false := hdot
        cases l with
        | ident s =>
          show (if u.isPunct .dot then s :: Token.dottedParts rest else []) = []
          rw [hu]
          rfl
        | _ => rfl
    | [p] =>
      cases hw : w.tail with
      | nil => rfl
      | cons u rest =>
        obtain ⟨l, _, _, _⟩ := u
        rw [hw] at htail
        obtain h | ⟨b, h⟩ | h := htail <;> cases h <;> rfl
    | p :: ⟨⟨l, _, _, _⟩, ⟨l', _, _, _⟩⟩ :: rest =>
      have hp := Token.isPunct_alike (hm.lexeme p (by simp)) .dot
      have hl := hm.lexeme _ (List.mem_cons_of_mem p (List.mem_cons_self))
      have hrest := ih rest.length
        (by rw [← hn, List.length_cons, List.length_cons]; omega) rest
        (hm.row ((List.suffix_cons _ rest).trans (List.suffix_cons p _)).isInfix) rfl
      cases hl with
      | lineEnd => rfl
      | refl =>
        cases l with
        | ident s =>
          simp only [List.map_cons, List.cons_append, Token.dottedParts, hp, hrest]
        | _ => rfl

theorem agree_dottedName (hc : w.Facing c c') (what : String) :
    w.Agree Eq (dottedName what) (dottedName what) c c' := by
  unfold dottedName
  refine (agree_name hc what).bind fun h hc₁ => agree_get ?_
  dsimp only
  rw [hc₁.dottedParts]
  refine (agree_advance hc₁ (Token.length_dottedParts _)).bind fun _ hc₂ => ?_
  exact agree_pure (by rw [h]) hc₂

/-! ## Expressions -/

/-- The expressions look alike. -/
def SameExpr (w : Twin) (e e' : SourceExpr) : Prop := w.view'.expr e' = w.view.expr e

/-- An expression is as long in both texts: in the second one it ends with the tail at the
latest. -/
theorem expressionLength_mirror {stop : Token → Bool}
    (hstop : ∀ t t' : Token, t.lexeme.Alike t'.lexeme → stop t' = stop t)
    (stack : List Bracket) {outer : List Bracket} (hm : w.Mirror ps) (hs : Token.Rooted stack)
    (h : Lexeme.nest (stack ++ outer) ((ps.map Prod.fst).map Token.lexeme) = some []) :
    Token.expressionLength stop (Token.depthOf stack) (ps.map Prod.snd ++ w.tail) =
      Token.expressionLength stop (Token.depthOf stack) (ps.map Prod.fst) := by
  induction ps generalizing stack with
  | nil =>
    obtain ⟨rfl, -⟩ := List.append_eq_nil_iff.mp (Option.some.inj h)
    cases hw : w.tail with
    | nil => rfl
    | cons u rest =>
      have hend : u.endsExpression = true := by
        obtain hu | hu := w.ended u (by rw [hw]; rfl) <;> simp [Token.endsExpression, hu]
      simp [Token.expressionLength, Token.depthOf, hend]
  | cons p ps ih =>
    have hl := hm.lexeme p (by simp)
    rw [List.map_cons, List.map_cons, List.cons_append, Token.expressionLength,
      Token.expressionLength, Token.endsExpression_alike hl, hstop _ _ hl,
      Token.depthAfter_alike hl]
    by_cases hcond : Token.depthOf stack = 0 ∧ (p.1.endsExpression || stop p.1) = true
    · rw [if_pos hcond, if_pos hcond]
    · rw [if_neg hcond, if_neg hcond]
      have hends : stack = [] → p.1.endsExpression = false := by
        rintro rfl
        rw [not_and, Bool.or_eq_true, not_or, Bool.not_eq_true] at hcond
        exact (hcond rfl).1
      obtain ⟨all, hall, hrest⟩ := Option.bind_eq_some_iff.mp h
      obtain ⟨stack', hn, rfl⟩ := Token.nestOne_of_append hall fun hnil b hb => by
        have he := hends hnil
        rw [Token.endsExpression_of_bracket (.inl hb)] at he
        cases he
      rw [Token.depthAfter_depthOf hn,
        ih stack' (hm.row (List.suffix_cons p ps).isInfix) (hs.next hends hn) hrest]

/-- The tokens on both sides are a mirrored row. -/
def SameRow (w : Twin) (ts ts' : List Token) : Prop :=
  ∃ qs, ts = qs.map Prod.fst ∧ ts' = qs.map Prod.snd ∧ w.Mirror qs

theorem Facing.sameRow_take (hc : w.Facing c c') {n : Nat} (hn : n ≤ c.ahead.length) :
    w.SameRow (c.ahead.take n) (c'.ahead.take n) := by
  obtain ⟨ps, hrow, hrow', hm⟩ := hc.row
  rw [hrow, List.length_map] at hn
  refine ⟨ps.take n, ?_, ?_, hm.row (List.take_prefix n ps).isInfix⟩
  · rw [hrow, List.map_take]
  · rw [hrow', List.take_append_of_le_length (by simpa using hn), List.map_take]

theorem agree_take (hc : w.Facing c c') {n : Nat} (hn : n ≤ c.ahead.length) :
    w.Agree w.SameRow (take n) (take n) c c' :=
  .ok (hc.sameRow_take hn) (hc.advance hn) (by simp [Cursor.advance])

theorem agree_sourceOf (hc : w.Facing c c') {ts ts' : List Token} (h : w.SameRow ts ts')
    (cause : StatementCause) :
    w.Agree w.SameExpr (sourceOf ts cause) (sourceOf ts' cause) c c' := by
  obtain ⟨qs, rfl, rfl, hm⟩ := h
  have hslice := hm.slice qs (List.infix_refl _)
  rw [← hc.source, ← hc.source'] at hslice
  unfold Agree
  rw [sourceOf_eq, sourceOf_eq]
  generalize Cursor.sourceOf? c.source (qs.map Prod.fst) = e at hslice ⊢
  generalize Cursor.sourceOf? c'.source (qs.map Prod.snd) = e' at hslice ⊢
  cases e with
  | none =>
    cases e' with
    | none => exact agree_fail _ _
    | some e' => cases hslice
  | some e =>
    cases e' with
    | none => cases hslice
    | some e' => exact agree_pure (Option.some.inj hslice) hc

theorem Facing.expressionLength (hc : w.Facing c c') {stop : Token → Bool}
    (hstop : ∀ t t' : Token, t.lexeme.Alike t'.lexeme → stop t' = stop t) :
    Token.expressionLength stop 0 c'.ahead = Token.expressionLength stop 0 c.ahead := by
  obtain ⟨ps, hrow, hrow', hm⟩ := hc.row
  obtain ⟨open_, hnest⟩ := hc.nest
  rw [hrow] at hnest
  rw [hrow, hrow']
  exact expressionLength_mirror hstop [] hm Token.rooted_nil hnest

theorem agree_expressionTokens (hc : w.Facing c c') {stop : Token → Bool}
    (hstop : ∀ t t' : Token, t.lexeme.Alike t'.lexeme → stop t' = stop t) :
    w.Agree w.SameRow (expressionTokens stop) (expressionTokens stop) c c' := by
  unfold expressionTokens
  refine agree_get ?_
  rw [hc.expressionLength hstop]
  exact agree_take hc (Token.expressionLength_le stop 0 c.ahead)

theorem agree_expression (hc : w.Facing c c') {stop : Token → Bool}
    (hstop : ∀ t t' : Token, t.lexeme.Alike t'.lexeme → stop t' = stop t) (what : String) :
    w.Agree w.SameExpr (expression stop what) (expression stop what) c c' :=
  (agree_expressionTokens hc hstop).bind fun h hc₁ => agree_sourceOf hc₁ h _

theorem agree_restOfStatement (hc : w.Facing c c') (what : String) :
    w.Agree w.SameExpr (restOfStatement what) (restOfStatement what) c c' :=
  agree_expression hc (fun _ _ _ => rfl) what

/-! ## Invocations -/

/-- Nothing is no argument. -/
theorem arguments_eq_error (hc : w.Facing c c') (hnil : c.ahead = []) (n : Nat) :
    (∃ d, arguments n c = .error d) ∧ ∃ d, arguments n c' = .error d := by
  have hstop : ∀ t t' : Token, t.lexeme.Alike t'.lexeme →
      t'.isPunct .comma = t.isPunct .comma := fun _ _ h => Token.isPunct_alike h _
  have hempty {x : Cursor} (h : Token.expressionLength (fun t => t.isPunct .comma) 0 x.ahead = 0)
      (n : Nat) : ∃ d, arguments n x = .error d := by
    cases n with
    | zero => exact ⟨_, rfl⟩
    | succ n =>
      have hexpr : ∃ d, expression (fun t => t.isPunct .comma) "an argument" x = .error d := by
        have htokens : expressionTokens (fun t => t.isPunct .comma) x = .ok ([], x.advance 0) := by
          show Except.ok
            (x.ahead.take (Token.expressionLength (fun t => t.isPunct .comma) 0 x.ahead),
            x.advance (Token.expressionLength (fun t => t.isPunct .comma) 0 x.ahead)) = _
          rw [h]
          rfl
        show ∃ d, (expressionTokens (fun t => t.isPunct .comma) x >>= fun s =>
          sourceOf s.1 (.expected "an argument") s.2) = .error d
        rw [htokens]
        exact ⟨_, rfl⟩
      obtain ⟨d, hd⟩ := hexpr
      refine ⟨d, ?_⟩
      unfold arguments
      show (expression (fun t => t.isPunct .comma) "an argument" x >>= fun s => _) = _
      rw [hd]
      rfl
  have hzero : Token.expressionLength (fun t => t.isPunct .comma) 0 c.ahead = 0 := by rw [hnil]; rfl
  exact ⟨hempty hzero n, hempty ((hc.expressionLength hstop).trans hzero) n⟩

theorem accept_eq (p : Punct) (c : Cursor) :
    accept p c = if c.isAtMark p = true then .ok (true, c.advance 1) else .ok (false, c) := by
  show (if c.isAtMark p = true then (do advance 1; return true) else return false) c = _
  split <;> rfl

theorem acceptKeyword_eq (k : Keyword) (c : Cursor) :
    acceptKeyword k c = if c.isAtKeyword k = true then .ok (true, c.advance 1)
      else .ok (false, c) := by
  show (if c.isAtKeyword k = true then (do advance 1; return true) else return false) c = _
  split <;> rfl

theorem length_of_accept {p : Punct} (h : accept p c = .ok (true, c₁)) :
    c₁.ahead.length < c.ahead.length := by
  rw [accept_eq] at h
  split at h
  · rename_i hp
    cases h
    have := List.length_pos_iff.mpr (ne_nil_of_isAtMark hp)
    simp only [Cursor.advance, List.length_drop]
    omega
  · cases h

/-- The second reading of arguments may spend more fuel. -/
theorem agree_arguments {n n' : Nat} (hc : w.Facing c c') (hn : c.ahead.length ≤ n)
    (hn' : c.ahead.length ≤ n') :
    w.Agree (fun es es' => es'.map w.view'.expr = es.map w.view.expr) (arguments n) (arguments n')
      c c' := by
  induction n generalizing n' c c' with
  | zero =>
    have hnil : c.ahead = [] := List.eq_nil_of_length_eq_zero (Nat.le_zero.mp hn)
    obtain ⟨d, hd⟩ := (arguments_eq_error hc hnil 0).1
    obtain ⟨d', hd'⟩ := (arguments_eq_error hc hnil n').2
    rw [Agree, hd, hd']
    exact .error
  | succ n ih =>
    cases n' with
    | zero =>
      have hnil : c.ahead = [] := List.eq_nil_of_length_eq_zero (Nat.le_zero.mp hn')
      obtain ⟨d, hd⟩ := (arguments_eq_error hc hnil (n + 1)).1
      rw [Agree, hd]
      exact .error
    | succ n' =>
      unfold arguments
      have hstop : ∀ t t' : Token, t.lexeme.Alike t'.lexeme →
          t'.isPunct .comma = t.isPunct .comma := fun _ _ h => Token.isPunct_alike h _
      refine (agree_expression hc hstop _).bind_onward fun he hc₁ _ hlen => ?_
      refine (agree_accept hc₁ (.inl (by decide))).bind_onward fun hfound hc₂ haccept _ => ?_
      subst hfound
      split
      · rename_i hcomma
        rw [hcomma] at haccept
        have := length_of_accept haccept
        refine (ih hc₂ (by omega) (by omega)).bind fun hes hc₃ => agree_pure ?_ hc₃
        rw [List.map_cons, List.map_cons, he, hes]
      · refine (agree_mark hc₂ (.inl (by decide)) _).bind fun _ hc₃ => agree_pure ?_ hc₃
        rw [List.map_singleton, List.map_singleton, he]

theorem Facing.length (hc : w.Facing c c') :
    c'.ahead.length = c.ahead.length + w.tail.length := by
  obtain ⟨ps, hrow, hrow', -⟩ := hc.row
  rw [hrow, hrow', List.length_append, List.length_map, List.length_map]

/-- The invocations look alike. -/
def SameCall (w : Twin) (call call' : Invocation) : Prop :=
  w.view'.invocation call' = w.view.invocation call

theorem agree_invocation (hc : w.Facing c c') :
    w.Agree w.SameCall invocation invocation c c' := by
  unfold invocation
  refine (agree_dottedName hc _).bind fun hparts hc₁ => ?_
  refine (agree_mark hc₁ (.inl (by decide)) _).bind fun _ hc₂ => ?_
  refine (agree_accept hc₂ (.inl (by decide))).bind fun hfound hc₃ => ?_
  subst hparts hfound
  split
  · exact agree_pure rfl hc₃
  · have hlen := hc₃.length
    refine agree_get ((agree_arguments hc₃ (Nat.le_refl _) (by omega)).bind fun hargs hc₄ => ?_)
    refine agree_pure ?_ hc₄
    simp only [SameCall, View.invocation, hargs]

end Twin

namespace Statement

open Reading Twin

variable {w : Twin} {c c' : Cursor}

/-- A bare call stands in both texts or in neither. -/
theorem bareCall?_mirror (hc : w.Facing c c') :
    (bareCall? c = none ∧ bareCall? c' = none) ∨ ∃ s s' c₁ c₁', bareCall? c = some (s, c₁) ∧
      bareCall? c' = some (s', c₁') ∧ w.view'.source s' = w.view.source s ∧
      w.Facing c₁ c₁' ∧ c₁.ahead.length ≤ c.ahead.length := by
  have hcall := agree_invocation hc
  unfold bareCall?
  rw [hc.isAtInvocation]
  split
  · rw [StateT.run, StateT.run]
    unfold Agree at hcall
    generalize invocation c = x at hcall
    generalize invocation c' = x' at hcall
    cases hcall with
    | error => exact .inl ⟨rfl, rfl⟩
    | @ok call call' c₁ c₁' hsame hc₁ hlen =>
      dsimp only
      rw [hc₁.isAtStatementEnd]
      split
      · have hcount : c'.ahead.length - c₁'.ahead.length = c.ahead.length - c₁.ahead.length := by
          rw [hc.length, hc₁.length]; omega
        obtain ⟨qs, hq, hq', hm⟩ := hc.sameRow_take (Nat.sub_le c.ahead.length c₁.ahead.length)
        have hslice := hm.slice qs (List.infix_refl _)
        rw [← hq, ← hq', ← hc.source, ← hc.source'] at hslice
        rw [hcount]
        generalize Cursor.sourceOf? c.source _ = e at hslice
        generalize Cursor.sourceOf? c'.source _ = e' at hslice
        cases e with
        | none =>
          cases e' with
          | none => exact .inl ⟨rfl, rfl⟩
          | some e' => cases hslice
        | some e =>
          cases e' with
          | none => cases hslice
          | some e' =>
            refine .inr ⟨_, _, c₁, c₁', rfl, rfl, ?_, hc₁, hlen⟩
            rw [View.source, View.source, hsame, Option.some.inj hslice]
      · exact .inl ⟨rfl, rfl⟩
  · exact .inl ⟨rfl, rfl⟩

/-! ## Statements on a line -/

theorem agree_readImport (hc : w.Facing c c') :
    w.Agree (fun k k' => w.view'.kind k' = w.view.kind k) readImport readImport c c' := by
  unfold readImport
  refine (agree_dottedName hc _).bind fun hpath hc₁ => ?_
  refine (agree_acceptKeyword hc₁ _).bind fun hfound hc₂ => ?_
  subst hpath hfound
  refine .join (agree_name hc₂ _) (agree_pure rfl hc₂) fun hname hc₃ => ?_
  subst hname
  exact agree_pure rfl hc₃

theorem agree_readSource (hc : w.Facing c c') :
    w.Agree (fun s s' => w.view'.source s' = w.view.source s) readSource readSource c c' := by
  unfold readSource
  refine (agree_acceptKeyword hc _).bind fun hfound hc₁ => ?_
  subst hfound
  split
  · exact (agree_invocation hc₁).bind fun hcall hc₂ => agree_pure (by
      rw [View.source, View.source, hcall]) hc₂
  · refine agree_get ?_
    obtain ⟨h, h'⟩ | ⟨s, s', c₂, c₂', h, h', hs, hc₂, hlen⟩ := bareCall?_mirror hc₁
    · rw [h, h']
      exact (agree_restOfStatement hc₁ _).bind fun he hc₂ => agree_pure (by
        rw [View.source, View.source, he]) hc₂
    · rw [h, h']
      exact .ok hs hc₂ hlen

theorem agree_readDeclare (hc : w.Facing c c') :
    w.Agree (fun k k' => w.view'.kind k' = w.view.kind k) readDeclare readDeclare c c' := by
  unfold readDeclare
  refine (agree_name hc _).bind fun hname hc₁ => ?_
  refine (agree_accept hc₁ (.inl (by decide))).bind fun htyped hc₂ => ?_
  subst hname htyped
  have htype : w.Agree Eq (some <$> dottedName "a type name")
      (some <$> dottedName "a type name") _ _ :=
    (agree_dottedName hc₂ _).map fun _ _ h => congrArg some h
  refine .join htype (agree_pure rfl hc₂) fun htype hc₃ => ?_
  refine (agree_accept hc₃ (.inl (by decide))).bind fun hstored hc₄ => ?_
  subst htype hstored
  have hvalue : w.Agree (fun s s' => s'.map w.view'.source = s.map w.view.source)
      (some <$> readSource) (some <$> readSource) _ _ :=
    (agree_readSource hc₄).map fun _ _ h => congrArg some h
  refine .join hvalue (agree_pure rfl hc₄) fun hvalue hc₅ => agree_pure ?_ hc₅
  rw [View.kind, View.kind, hvalue]

theorem agree_readAssign (hc : w.Facing c c') :
    w.Agree (fun k k' => w.view'.kind k' = w.view.kind k) readAssign readAssign c c' := by
  unfold readAssign
  refine (agree_name hc _).bind fun hname hc₁ => ?_
  refine (agree_mark hc₁ (.inl (by decide)) _).bind fun _ hc₂ => ?_
  refine (agree_readSource hc₂).bind fun hvalue hc₃ => agree_pure ?_ hc₃
  rw [View.kind, View.kind, hvalue, hname]

theorem agree_readReturn (hc : w.Facing c c') :
    w.Agree (fun k k' => w.view'.kind k' = w.view.kind k) readReturn readReturn c c' := by
  unfold readReturn
  refine agree_get ?_
  rw [hc.isAtStatementEnd]
  split
  · exact agree_pure rfl hc
  · refine (agree_restOfStatement hc _).bind fun he hc₁ => agree_pure ?_ hc₁
    rw [View.kind, View.kind, Option.map_some, Option.map_some, he]

theorem agree_endOf (hc : w.Facing c c') (statement : String) :
    w.Agree (fun _ _ => True) (endOf statement) (endOf statement) c c' := by
  unfold endOf
  refine agree_get ?_
  rw [hc.isAtStatementEnd]
  split
  · exact agree_pure trivial hc
  · exact agree_fail _ _

end Statement

end PipelineScript
