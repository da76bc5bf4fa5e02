import PipelineScript.Proofs.Statement.Mirrors

/-! # Statements that are read again in another text

What is read from the tokens of one text is read from their mirror in another one, and looks alike
(`Twin.follow_readList`). This holds in one direction: behind the mirrored tokens the second text
may go on, with more statements where the first one ends. -/

namespace PipelineScript

namespace Cursor

theorem ahead_skipWhile (c : Cursor) (p : Token → Bool) :
    (c.skipWhile p).ahead = c.ahead.dropWhile p := by
  show c.ahead.drop (c.ahead.takeWhile p).length = c.ahead.dropWhile p
  induction c.ahead with
  | nil => rfl
  | cons t ts ih => cases ht : p t <;> simp [ht, ih]

theorem length_skipWhile (c : Cursor) (p : Token → Bool) :
    (c.skipWhile p).ahead.length ≤ c.ahead.length := by
  rw [ahead_skipWhile]
  exact (List.dropWhile_suffix p).length_le

end Cursor

theorem Token.closingDistance?_lt {depth n : Nat} {ts : List Token}
    (h : closingDistance? depth ts = some n) : n < ts.length := by
  induction ts generalizing depth n with
  | nil => cases h
  | cons t ts ih =>
    rw [closingDistance?] at h
    have hnext {depth : Nat} (h : (closingDistance? depth ts).map (· + 1) = some n) :
        n < (t :: ts).length := by
      obtain ⟨m, hm, rfl⟩ := Option.map_eq_some_iff.mp h
      exact Nat.succ_lt_succ (ih hm)
    split at h
    · split at h
      · cases h; exact Nat.zero_lt_succ _
      · exact hnext h
    · split at h
      · exact hnext h
      · exact hnext h

namespace Twin

open Reading Statement

variable {w : Twin} {ps : List (Token × Token)} {c c' : Cursor} {α α' β β' : Type}
  {rel : α → α' → Prop} {rel' : β → β' → Prop} {r : Reading α} {r' : Reading α'}

/-- When the first reading succeeds, the second one does, with a result alike. -/
def Follow (w : Twin) (rel : α → α' → Prop) (r : Reading α) (r' : Reading α') (c c' : Cursor) :
    Prop :=
  ∀ a c₁, r c = .ok (a, c₁) → ∃ a' c₁', r' c' = .ok (a', c₁') ∧ rel a a' ∧ w.Facing c₁ c₁' ∧
    c₁.ahead.length ≤ c.ahead.length

theorem Agree.follow (h : w.Agree rel r r' c c') : w.Follow rel r r' c c' := by
  intro a c₁ hr
  unfold Agree at h
  rw [hr] at h
  generalize r' c' = x' at h ⊢
  cases h with
  | ok ha hc hlen => exact ⟨_, _, rfl, ha, hc, hlen⟩

theorem Follow.bind_onward {f : α → Reading β} {f' : α' → Reading β'}
    (h : w.Follow rel r r' c c')
    (hf : ∀ {a a' c₁ c₁'}, rel a a' → w.Facing c₁ c₁' → r c = .ok (a, c₁) →
      c₁.ahead.length ≤ c.ahead.length → w.Follow rel' (f a) (f' a') c₁ c₁') :
    w.Follow rel' (r >>= f) (r' >>= f') c c' := by
  intro b c₂ hb
  obtain ⟨a, c₁, ha, hfb⟩ := bind_eq_ok.mp hb
  obtain ⟨a', c₁', ha', hrel, hc₁, hlen⟩ := h a c₁ ha
  obtain ⟨b', c₂', hb', hrel', hc₂, hlen'⟩ := hf hrel hc₁ ha hlen b c₂ hfb
  exact ⟨b', c₂', bind_eq_ok.mpr ⟨a', c₁', ha', hb'⟩, hrel', hc₂, Nat.le_trans hlen' hlen⟩

theorem Follow.bind {f : α → Reading β} {f' : α' → Reading β'} (h : w.Follow rel r r' c c')
    (hf : ∀ {a a' c₁ c₁'}, rel a a' → w.Facing c₁ c₁' → w.Follow rel' (f a) (f' a') c₁ c₁') :
    w.Follow rel' (r >>= f) (r' >>= f') c c' :=
  h.bind_onward fun ha hc _ _ => hf ha hc

theorem follow_pure {a : α} {a' : α'} (h : rel a a') (hc : w.Facing c c') :
    w.Follow rel (pure a) (pure a') c c' := (agree_pure h hc).follow

theorem follow_of_error (h : ∃ d, r c = .error d) : w.Follow rel r r' c c' := by
  intro a c₁ hr
  obtain ⟨d, hd⟩ := h
  cases hd.symm.trans hr

theorem follow_fail (cause : StatementCause) : w.Follow rel (fail cause) r' c c' :=
  follow_of_error ⟨_, rfl⟩

theorem follow_get {f : Cursor → Reading β} {f' : Cursor → Reading β'}
    (h : w.Follow rel' (f c) (f' c') c c') : w.Follow rel' (get >>= f) (get >>= f') c c' := h

/-- The readings go on from other cursors, which stand further on. -/
theorem follow_set {x x' : Cursor} {f : PUnit → Reading β} {f' : PUnit → Reading β'}
    (h : w.Follow rel' (f ⟨⟩) (f' ⟨⟩) x x') (hx : x.ahead.length ≤ c.ahead.length) :
    w.Follow rel' (set x >>= f) (set x' >>= f') c c' := by
  intro b c₁ hb
  obtain ⟨b', c₁', hb', hrel, hc, hlen⟩ := h b c₁ hb
  exact ⟨b', c₁', hb', hrel, hc, Nat.le_trans hlen hx⟩

theorem follow_failIf {p p' : Prop} [Decidable p] [Decidable p'] (hp : p ↔ p')
    (cause cause' : StatementCause) {f : Unit → Reading β} {f' : Unit → Reading β'}
    (h : w.Follow rel' (f ()) (f' ()) c c') :
    w.Follow rel' (if p then fail cause >>= f else f ())
      (if p' then fail cause' >>= f' else f' ()) c c' := by
  by_cases hc : p
  · rw [if_pos hc]
    exact follow_of_error ⟨_, rfl⟩
  · rw [if_neg hc, if_neg fun hc' => hc (hp.mpr hc')]
    exact h

theorem follow_failUnless {p p' : Prop} [Decidable p] [Decidable p'] (hp : p ↔ p')
    (cause cause' : StatementCause) {f : Unit → Reading β} {f' : Unit → Reading β'}
    (h : w.Follow rel' (f ()) (f' ()) c c') :
    w.Follow rel' (if p then f () else fail cause >>= f)
      (if p' then f' () else fail cause' >>= f') c c' := by
  by_cases hc : p
  · rw [if_pos hc, if_pos (hp.mp hc)]
    exact h
  · rw [if_neg hc]
    exact follow_of_error ⟨_, rfl⟩

/-- Whichever way both readings take, they go on in the same way. -/
theorem Follow.join {p : Prop} [Decidable p] {s : Reading α} {s' : Reading α'}
    {f : α → Reading β} {f' : α' → Reading β'} (h : w.Follow rel r r' c c')
    (h' : w.Follow rel s s' c c')
    (hf : ∀ {a a' c₁ c₁'}, rel a a' → w.Facing c₁ c₁' → w.Follow rel' (f a) (f' a') c₁ c₁') :
    w.Follow rel' (if p then r >>= f else s >>= f) (if p then r' >>= f' else s' >>= f') c c' := by
  split
  · exact h.bind hf
  · exact h'.bind hf

/-! ## Gaps, marks and lines -/

theorem length_takeWhile_mirror (hm : w.Mirror ps) {p : Token → Bool}
    (hp : ∀ t t' : Token, t.lexeme.Alike t'.lexeme → p t' = p t)
    (hne : (ps.map Prod.fst).dropWhile p ≠ []) (tail : List Token) :
    ((ps.map Prod.snd ++ tail).takeWhile p).length = ((ps.map Prod.fst).takeWhile p).length := by
  induction ps with
  | nil => exact absurd rfl hne
  | cons q ps ih =>
    have hq := hp _ _ (hm.lexeme q (by simp))
    rw [List.map_cons, List.map_cons, List.cons_append, List.takeWhile_cons, List.takeWhile_cons,
      hq]
    cases hpq : p q.1 with
    | false => rfl
    | true =>
      rw [List.map_cons, List.dropWhile_cons_of_pos hpq] at hne
      have hrest := ih (hm.row (List.suffix_cons q ps).isInfix) hne
      simpa using hrest

theorem Facing.skipWhile (hc : w.Facing c c') {p : Token → Bool}
    (hp : ∀ t t' : Token, t.lexeme.Alike t'.lexeme → p t' = p t)
    (hne : (c.skipWhile p).ahead ≠ []) : w.Facing (c.skipWhile p) (c'.skipWhile p) := by
  obtain ⟨ps, hrow, hrow', hm⟩ := hc.row
  rw [Cursor.ahead_skipWhile, hrow] at hne
  have hcount : (c'.ahead.takeWhile p).length = (c.ahead.takeWhile p).length := by
    rw [hrow, hrow']
    exact length_takeWhile_mirror hm hp hne w.tail
  rw [Cursor.skipWhile, Cursor.skipWhile, hcount]
  exact hc.advance (List.takeWhile_prefix p).length_le

/-- The first reading does not go on at the end of its text. -/
theorem follow_skipWhile (hc : w.Facing c c') {p : Token → Bool}
    (hp : ∀ t t' : Token, t.lexeme.Alike t'.lexeme → p t' = p t)
    {f : Unit → Reading β} {f' : Unit → Reading β'}
    (hend : ∀ x : Cursor, x.ahead = [] → ∃ d, f () x = .error d)
    (hf : ∀ {c₁ c₁'}, w.Facing c₁ c₁' → c₁.ahead ≠ [] → c₁.ahead.length ≤ c.ahead.length →
      w.Follow rel' (f ()) (f' ()) c₁ c₁') :
    w.Follow rel' (skipWhile p >>= f) (skipWhile p >>= f') c c' := by
  have hlen := c.length_skipWhile p
  by_cases hne : (c.skipWhile p).ahead = []
  · exact follow_of_error (hend _ hne)
  · intro b c₁ hb
    obtain ⟨b', c₁', hb', hrel, hc₁, hle⟩ := hf (hc.skipWhile hp hne) hne hlen b c₁ hb
    exact ⟨b', c₁', hb', hrel, hc₁, Nat.le_trans hle hlen⟩

theorem follow_mark (hc : w.Facing c c') (p : Punct) (what : String) :
    w.Follow (fun _ _ => True) (mark p what) (mark p what) c c' := by
  by_cases hne : c.ahead = []
  · refine follow_of_error ⟨c.diagnose (.expectedMark p what), ?_⟩
    have hmark : c.isAtMark p = false := by rw [Cursor.isAtMark, Cursor.head?, hne]; rfl
    show (if c.isAtMark p = true then (do advance 1; return true) else return false) c >>=
      (fun s => (if s.1 = true then pure () else fail (.expectedMark p what)) s.2) = _
    rw [hmark]
    rfl
  · exact (agree_mark hc (.inr hne) what).follow

theorem cursor_of_accept {p : Punct} {c₁ : Cursor} (h : accept p c = .ok (false, c₁)) :
    c₁ = c := by
  rw [accept_eq] at h
  split at h
  · cases h
  · cases h; rfl

theorem Facing.line (hc : w.Facing c c') (hne : c.ahead ≠ []) :
    w.view'.line c'.line = w.view.line c.line := by
  obtain ⟨t, t', ht, ht', -, hline⟩ := hc.head_of_ne_nil hne
  rw [Cursor.line, Cursor.line, ht, ht']
  exact hline

theorem agree_line (hc : w.Facing c c') (hne : c.ahead ≠ []) :
    w.Agree (fun n n' => w.view'.line n' = w.view.line n) Reading.line Reading.line c c' :=
  agree_get (agree_pure (hc.line hne) hc)

/-! ## Parentheses and ranges -/

theorem closingDistance?_mirror (hm : w.Mirror ps) {depth n : Nat}
    (h : Token.closingDistance? depth (ps.map Prod.fst) = some n) (tail : List Token) :
    Token.closingDistance? depth (ps.map Prod.snd ++ tail) = some n := by
  induction ps generalizing depth n with
  | nil => cases h
  | cons q ps ih =>
    have hq := Token.isPunct_alike (hm.lexeme q (by simp))
    have hnext {depth : Nat}
        (h : (Token.closingDistance? depth (ps.map Prod.fst)).map (· + 1) = some n) :
        (Token.closingDistance? depth (ps.map Prod.snd ++ tail)).map (· + 1) = some n := by
      obtain ⟨m, hm', rfl⟩ := Option.map_eq_some_iff.mp h
      rw [ih (hm.row (List.suffix_cons q ps).isInfix) hm']
      rfl
    rw [List.map_cons, Token.closingDistance?] at h
    rw [List.map_cons, List.cons_append, Token.closingDistance?, hq, hq]
    split at h
    · rename_i hclose
      rw [if_pos hclose]
      split at h
      · rename_i hd; rw [if_pos hd]; exact h
      · rename_i hd; rw [if_neg hd]; exact hnext h
    · rename_i hclose
      rw [if_neg hclose]
      split at h
      · rename_i hopen; rw [if_pos hopen]; exact hnext h
      · rename_i hopen; rw [if_neg hopen]; exact hnext h

theorem follow_parenthesized (hc : w.Facing c c') (what : String) :
    w.Follow w.SameExpr (parenthesized what) (parenthesized what) c c' := by
  unfold parenthesized
  refine (agree_mark hc (.inl (by decide)) _).follow.bind fun {_ _ c₁ c₁'} _ hc₁ => follow_get ?_
  cases hd : Token.closingDistance? 0 c₁.ahead with
  | none => exact follow_of_error ⟨_, rfl⟩
  | some n =>
    have hd' : Token.closingDistance? 0 c₁'.ahead = some n := by
      obtain ⟨ps, hrow, hrow', hm⟩ := hc₁.row
      rw [hrow] at hd
      rw [hrow']
      exact closingDistance?_mirror hm hd w.tail
    rw [hd']
    have hn := Token.closingDistance?_lt hd
    refine (agree_take hc₁ (Nat.le_of_lt hn)).follow.bind_onward fun hrow hc₂ htake _ => ?_
    cases htake
    refine (agree_sourceOf hc₂ hrow _).follow.bind_onward fun he hc₃ hsource _ => ?_
    obtain rfl := (sourceOf_eq_ok.mp hsource).2
    have hone : 1 ≤ (c₁.advance n).ahead.length := by
      simp only [Cursor.advance, List.length_drop]; omega
    exact (agree_advance hc₃ hone).follow.bind fun _ hc₄ => follow_pure he hc₄

/-- Both rows are split at the same place. -/
theorem splitRange?_mirror (hm : w.Mirror ps) (depth : Nat) :
    (Token.splitRange? depth (ps.map Prod.fst) = none ∧
      Token.splitRange? depth (ps.map Prod.snd) = none) ∨
    ∃ before before' inclusive after after',
      Token.splitRange? depth (ps.map Prod.fst) = some (before, inclusive, after) ∧
      Token.splitRange? depth (ps.map Prod.snd) = some (before', inclusive, after') ∧
      (∃ n, before = (ps.take n).map Prod.fst ∧ before' = (ps.take n).map Prod.snd) ∧
      w.SameRow after after' := by
  induction ps generalizing depth with
  | nil => exact .inl ⟨rfl, rfl⟩
  | cons q ps ih =>
    have hrest := hm.row (List.suffix_cons q ps).isInfix
    have hq := Token.isPunct_alike (hm.lexeme q (by simp))
    rw [List.map_cons, List.map_cons, Token.splitRange?, Token.splitRange?, hq, hq,
      Token.depthAfter_alike (hm.lexeme q (by simp))]
    by_cases hop : depth = 0 ∧ (q.1.isPunct .rangeThrough || q.1.isPunct .rangeBelow) = true
    · rw [if_pos hop, if_pos hop]
      exact .inr ⟨_, _, _, _, _, rfl, rfl, ⟨0, rfl, rfl⟩, ps, rfl, rfl, hrest⟩
    · rw [if_neg hop, if_neg hop]
      obtain ⟨h, h'⟩ | ⟨b, b', i, a, a', h, h', ⟨n, rfl, rfl⟩, hafter⟩ :=
        ih hrest (q.1.depthAfter depth)
      · rw [h, h']
        exact .inl ⟨rfl, rfl⟩
      · rw [h, h']
        exact .inr ⟨_, _, _, _, _, rfl, rfl, ⟨n + 1, rfl, rfl⟩, hafter⟩

end Twin

namespace Statement

open Reading Twin

variable {w : Twin} {c c' : Cursor}

theorem agree_readIterable (hc : w.Facing c c') :
    w.Agree (fun i i' => w.view'.iterable i' = w.view.iterable i) readIterable readIterable
      c c' := by
  unfold readIterable
  refine (agree_expressionTokens hc fun _ _ _ => rfl).bind fun hrow hc₁ => ?_
  obtain ⟨ps, rfl, rfl, hm⟩ := hrow
  obtain ⟨h, h'⟩ | ⟨b, b', i, a, a', h, h', ⟨n, rfl, rfl⟩, hafter⟩ := splitRange?_mirror hm 0
  · rw [h, h']
    refine (agree_sourceOf hc₁ ⟨ps, rfl, rfl, hm⟩ _).bind fun he hc₂ => agree_pure ?_ hc₂
    rw [View.iterable, View.iterable, he]
  · rw [h, h']
    have hbefore := hm.row (List.take_prefix n ps).isInfix
    refine (agree_sourceOf hc₁ ⟨_, rfl, rfl, hbefore⟩ _).bind fun hstart hc₂ => ?_
    refine (agree_sourceOf hc₂ hafter _).bind fun hstop hc₃ => agree_pure ?_ hc₃
    rw [View.iterable, View.iterable, hstart, hstop]

/-! ## Task blocks -/

theorem agree_readTaskKey (hc : w.Facing c c') (hne : c.ahead ≠ []) :
    w.Agree Eq readTaskKey readTaskKey c c' := by
  unfold readTaskKey
  refine agree_get ?_
  obtain ⟨t, t', ht, ht', hl, -⟩ := hc.head_of_ne_nil hne
  rw [ht, ht', Option.map_some, Option.map_some]
  generalize t.lexeme = l at hl
  generalize t'.lexeme = l' at hl
  cases hl with
  | lineEnd => exact agree_fail _ _
  | refl =>
    cases l with
    | ident s => exact (agree_next hc hne).bind fun _ hc₁ => agree_pure rfl hc₁
    | str s => exact (agree_next hc hne).bind fun _ hc₁ => agree_pure rfl hc₁
    | _ => exact agree_fail _ _

theorem isEntryGap_alike {t t' : Token} (h : t.lexeme.Alike t'.lexeme) :
    isEntryGap t' = isEntryGap t := by
  rw [isEntryGap, isEntryGap, Token.isLineEnd_alike h, Token.isPunct_alike h]

theorem follow_readTaskEntries {n n' : Nat} (hn : n ≤ n') (seen : List String)
    (hc : w.Facing c c') :
    w.Follow (fun ts ts' => ts'.map w.view'.entry = ts.map w.view.entry)
      (readTaskEntries n seen) (readTaskEntries n' seen) c c' := by
  induction n generalizing n' seen c c' with
  | zero => exact follow_fail _
  | succ n ih =>
    obtain ⟨m, rfl⟩ := Nat.exists_eq_add_of_lt (Nat.lt_of_succ_le hn)
    unfold readTaskEntries
    refine follow_skipWhile hc (fun _ _ => isEntryGap_alike) ?_ fun hc₁ hne _ => ?_
    · rintro ⟨source, passed, ahead⟩ rfl
      exact ⟨_, rfl⟩
    refine (agree_accept hc₁ (.inr hne)).follow.bind_onward fun hclosed hc₂ haccept _ => ?_
    subst hclosed
    split
    · exact follow_pure rfl hc₂
    rename_i hopen
    rw [Bool.not_eq_true] at hopen
    rw [hopen] at haccept
    obtain rfl := cursor_of_accept haccept
    refine (agree_line hc₂ hne).follow.bind_onward fun hline hc₃ hread _ => ?_
    cases hread
    refine (agree_readTaskKey hc₃ hne).follow.bind fun hkey hc₄ => ?_
    subst hkey
    refine follow_failIf Iff.rfl _ _ ?_
    refine (agree_mark hc₄ (.inl (by decide)) _).follow.bind fun _ hc₅ => ?_
    refine (agree_invocation hc₅).follow.bind fun hcall hc₆ => follow_get ?_
    refine follow_failUnless ?_ _ _ ((ih (Nat.le_add_right n m) _ hc₆).bind fun hentries hc₇ => ?_)
    · rw [hc₆.isAtStatementEnd, hc₆.isAtMark (.inl (by decide))]
    · refine follow_pure ?_ hc₇
      rw [List.map_cons, List.map_cons, View.entry, View.entry, hcall, hline, hentries]

theorem follow_readTaskBlock (hc : w.Facing c c') :
    w.Follow (fun k k' => w.view'.kind k' = w.view.kind k) readTaskBlock readTaskBlock c c' := by
  unfold readTaskBlock
  refine (agree_name hc _).follow.bind fun hname hc₁ => ?_
  refine (agree_mark hc₁ (.inl (by decide)) _).follow.bind fun _ hc₂ => follow_get ?_
  have hlen := hc₂.length
  refine (follow_readTaskEntries (by omega) [] hc₂).bind fun htasks hc₃ => follow_pure ?_ hc₃
  rw [View.kind, View.kind, hname, htasks]

/-! ## Statements with a block -/

/-- The trees look alike. -/
def SameTree (w : Twin) (s s' : Statement) : Prop := w.view'.statement s' = w.view.statement s

def SameTrees (w : Twin) (ss ss' : List Statement) : Prop :=
  w.view'.statements ss' = w.view.statements ss

theorem SameTrees.cons {s s' : Statement} {ss ss' : List Statement} (h : SameTree w s s')
    (hs : SameTrees w ss ss') : SameTrees w (s :: ss) (s' :: ss') := by
  rw [SameTrees, View.statements_cons, View.statements_cons, h, hs]

theorem sameTrees_nil : SameTrees w [] [] := by
  rw [SameTrees, View.statements_nil, View.statements_nil]

theorem sameTree_ofBlock {k k' : Kind} {n n' : Nat} {ss ss' : List Statement}
    (hk : w.view'.kind k' = w.view.kind k) (hn : w.view'.line n' = w.view.line n)
    (hs : SameTrees w ss ss') : SameTree w (ofBlock k n ss) (ofBlock k' n' ss') := by
  rw [SameTree, View.statement_ofBlock, View.statement_ofBlock, hk, hn, hs]

theorem sameTree_ofLine {k k' : Kind} {n n' : Nat} (hk : w.view'.kind k' = w.view.kind k)
    (hn : w.view'.line n' = w.view.line n) : SameTree w (ofLine k n) (ofLine k' n') := by
  rw [SameTree, View.statement_ofLine, View.statement_ofLine, hk, hn]

/-- The tokens do not go on with the further arm of a conditional. -/
def NoElse (ts : List Token) : Prop :=
  ∀ t ∈ (ts.dropWhile Token.isLineEnd).head?, t.isKeyword .else_ = false

theorem dropWhile_mirror {ps : List (Token × Token)} (hm : w.Mirror ps) {p : Token → Bool}
    (hp : ∀ t t' : Token, t.lexeme.Alike t'.lexeme → p t' = p t)
    (h : (ps.map Prod.fst).dropWhile p = []) (tail : List Token) :
    (ps.map Prod.snd ++ tail).dropWhile p = tail.dropWhile p := by
  induction ps with
  | nil => rfl
  | cons q ps ih =>
    have hq := hp _ _ (hm.lexeme q (by simp))
    cases hpq : p q.1 with
    | false =>
      rw [List.map_cons, List.dropWhile_cons_of_neg (by simp [hpq])] at h
      cases h
    | true =>
      rw [List.map_cons, List.dropWhile_cons_of_pos hpq] at h
      rw [List.map_cons, List.cons_append, List.dropWhile_cons_of_pos (hq.trans hpq)]
      exact ih (hm.row (List.suffix_cons q ps).isInfix) h

/-- Where the first text has nothing but gaps left, the second one goes on with its tail. -/
theorem ahead_skipWhile_of_eq_nil (hc : w.Facing c c') {p : Token → Bool}
    (hp : ∀ t t' : Token, t.lexeme.Alike t'.lexeme → p t' = p t)
    (h : (c.skipWhile p).ahead = []) : (c'.skipWhile p).ahead = w.tail.dropWhile p := by
  obtain ⟨ps, hrow, hrow', hm⟩ := hc.row
  rw [Cursor.ahead_skipWhile, hrow] at h
  rw [Cursor.ahead_skipWhile, hrow', dropWhile_mirror hm hp h]

theorem isAtElse_mirror (helse : NoElse w.tail) (hc : w.Facing c c') :
    (c'.skipWhile Token.isLineEnd).isAtKeyword .else_ =
      (c.skipWhile Token.isLineEnd).isAtKeyword .else_ := by
  have hline : ∀ t t' : Token, t.lexeme.Alike t'.lexeme → t'.isLineEnd = t.isLineEnd :=
    fun _ _ => Token.isLineEnd_alike
  by_cases hne : (c.skipWhile Token.isLineEnd).ahead = []
  · have hnone : (c.skipWhile Token.isLineEnd).isAtKeyword .else_ = false := by
      rw [Cursor.isAtKeyword, Cursor.head?, hne]; rfl
    rw [hnone, Cursor.isAtKeyword, Cursor.head?, ahead_skipWhile_of_eq_nil hc hline hne]
    cases ht : (w.tail.dropWhile Token.isLineEnd).head? with
    | none => rfl
    | some t => exact helse t ht
  · exact (hc.skipWhile hline hne).isAtKeyword _

theorem readElse_eq_nil {block : Terminator → Reading (List Statement)}
    (h : (c.skipWhile Token.isLineEnd).isAtKeyword .else_ = false) (n : Nat) :
    readElse block n c = .ok ([], c) := by
  cases n with
  | zero => rfl
  | succ n =>
    rw [readElse]
    show (if (c.skipWhile Token.isLineEnd).isAtKeyword .else_ = true then _
      else (return [] : Reading (List Statement))) c = _
    rw [h]
    rfl

section

variable {block block' : Terminator → Reading (List Statement)}
  (hblock : ∀ {terminator : Terminator}, terminator ≠ .endOfText → ∀ {c c' : Cursor},
    w.Facing c c' → w.Follow (SameTrees w) (block terminator) (block' terminator) c c')
include hblock

theorem follow_braced (hc : w.Facing c c') :
    w.Follow (SameTrees w) (braced block) (braced block') c c' := by
  unfold braced
  refine (agree_mark hc (.inl (by decide)) _).follow.bind fun _ hc₁ => ?_
  refine (hblock (by decide) hc₁).bind fun hbody hc₂ => ?_
  exact (follow_mark hc₂ _ _).bind fun _ hc₃ => follow_pure hbody hc₃

theorem follow_readElse (helse : NoElse w.tail) {n n' : Nat} (hc : w.Facing c c')
    (hn : c.ahead.length ≤ n) (hn' : c.ahead.length ≤ n') :
    w.Follow (SameTrees w) (readElse block n) (readElse block' n') c c' := by
  induction n generalizing n' c c' with
  | zero =>
    have hnil : c.ahead = [] := List.eq_nil_of_length_eq_zero (Nat.le_zero.mp hn)
    have hnone : (c.skipWhile Token.isLineEnd).isAtKeyword .else_ = false := by
      rw [Cursor.isAtKeyword, Cursor.head?, Cursor.ahead_skipWhile, hnil]; rfl
    intro ss c₁ hr
    cases (readElse_eq_nil hnone 0).symm.trans hr
    have hnone' := (isAtElse_mirror helse hc).trans hnone
    exact ⟨[], c', readElse_eq_nil hnone' n', sameTrees_nil, hc, Nat.le_refl _⟩
  | succ n ih =>
    have hlen := c.length_skipWhile Token.isLineEnd
    by_cases hat : (c.skipWhile Token.isLineEnd).isAtKeyword .else_ = true
    · have hne := ne_nil_of_isAtKeyword hat
      have hpos := List.length_pos_iff.mpr hne
      obtain ⟨n', rfl⟩ : ∃ m, n' = m + 1 := ⟨n' - 1, by omega⟩
      have hc₁ := hc.skipWhile (fun _ _ => Token.isLineEnd_alike) hne
      have hc₂ := hc₁.advance (n := 1) hpos
      have hshort : ((c.skipWhile Token.isLineEnd).advance 1).ahead.length < c.ahead.length := by
        simp only [Cursor.advance, List.length_drop]; omega
      unfold readElse
      refine follow_get ?_
      dsimp only
      rw [isAtElse_mirror helse hc, if_pos hat, if_pos hat]
      refine follow_set ?_ (Nat.le_of_lt hshort)
      refine (agree_acceptKeyword hc₂ _).follow.bind_onward fun hif hc₃ _ hlen₃ => ?_
      subst hif
      split
      · refine (follow_parenthesized hc₃ _).bind_onward fun hcond hc₄ _ hlen₄ => ?_
        refine (follow_braced hblock hc₄).bind_onward fun hbody hc₅ _ hlen₅ => ?_
        refine (ih hc₅ (by omega) (by omega)).bind fun hmore hc₆ => follow_pure ?_ hc₆
        refine .cons (sameTree_ofBlock ?_ (hc₁.line hne) hbody) hmore
        rw [View.kind, View.kind, hcond]
      · refine (follow_braced hblock hc₃).bind fun hbody hc₄ => follow_pure ?_ hc₄
        exact .cons (sameTree_ofBlock rfl (hc₁.line hne) hbody) sameTrees_nil
    · rw [Bool.not_eq_true] at hat
      intro ss c₁ hr
      cases (readElse_eq_nil hat (n + 1)).symm.trans hr
      have hat' := (isAtElse_mirror helse hc).trans hat
      exact ⟨[], c', readElse_eq_nil hat' n', sameTrees_nil, hc, Nat.le_refl _⟩

theorem follow_readConditional (helse : NoElse w.tail) {line line' : Nat}
    (hline : w.view'.line line' = w.view.line line) (hc : w.Facing c c') :
    w.Follow (SameTree w) (readConditional block line) (readConditional block' line') c c' := by
  unfold readConditional
  refine (follow_parenthesized hc _).bind fun hcond hc₁ => ?_
  refine (follow_braced hblock hc₁).bind fun hbody hc₂ => follow_get ?_
  have hlen := hc₂.length
  refine (follow_readElse hblock helse hc₂ (Nat.le_refl _) (by omega)).bind fun hmore hc₃ => ?_
  refine follow_pure (sameTree_ofBlock rfl hline (.cons (sameTree_ofBlock ?_ hline hbody) hmore)) hc₃
  rw [View.kind, View.kind, hcond]

theorem follow_readArms {n n' : Nat} (hn : n ≤ n') (hc : w.Facing c c') :
    w.Follow (SameTrees w) (readArms block n) (readArms block' n') c c' := by
  induction n generalizing n' c c' with
  | zero => exact follow_fail _
  | succ n ih =>
    obtain ⟨m, rfl⟩ := Nat.exists_eq_add_of_lt (Nat.lt_of_succ_le hn)
    unfold readArms
    refine follow_skipWhile hc (fun _ _ => Token.isLineEnd_alike) ?_ fun hc₁ hne _ => ?_
    · rintro ⟨source, passed, ahead⟩ rfl
      exact ⟨_, rfl⟩
    refine (agree_accept hc₁ (.inr hne)).follow.bind_onward fun hclosed hc₂ haccept _ => ?_
    subst hclosed
    split
    · exact follow_pure sameTrees_nil hc₂
    rename_i hopen
    rw [Bool.not_eq_true] at hopen
    rw [hopen] at haccept
    obtain rfl := cursor_of_accept haccept
    refine (agree_line hc₂ hne).follow.bind fun hline hc₃ => ?_
    refine (agree_acceptKeyword hc₃ _).follow.bind fun hcase hc₄ => ?_
    subst hcase
    split
    · have hvalue := agree_expression hc₄
        (fun _ _ h => Token.isPunct_alike h .colon) "a case value"
      refine hvalue.follow.bind fun hvalue hc₅ => ?_
      refine (agree_mark hc₅ (.inl (by decide)) _).follow.bind fun _ hc₆ => ?_
      refine (hblock (by decide) hc₆).bind fun hbody hc₇ => ?_
      refine (ih (Nat.le_add_right n m) hc₇).bind fun hmore hc₈ => follow_pure ?_ hc₈
      refine .cons (sameTree_ofBlock ?_ hline hbody) hmore
      rw [View.kind, View.kind, hvalue]
    refine (agree_acceptKeyword hc₄ _).follow.bind fun hdefault hc₅ => ?_
    subst hdefault
    split
    · refine (agree_mark hc₅ (.inl (by decide)) _).follow.bind fun _ hc₆ => ?_
      refine (hblock (by decide) hc₆).bind fun hbody hc₇ => ?_
      refine (ih (Nat.le_add_right n m) hc₇).bind fun hmore hc₈ => follow_pure ?_ hc₈
      exact .cons (sameTree_ofBlock rfl hline hbody) hmore
    · exact follow_fail _

theorem follow_readSwitch {line line' : Nat} (hline : w.view'.line line' = w.view.line line)
    (hc : w.Facing c c') :
    w.Follow (SameTree w) (readSwitch block line) (readSwitch block' line') c c' := by
  unfold readSwitch
  refine (follow_parenthesized hc _).bind fun hsubject hc₁ => ?_
  refine (agree_mark hc₁ (.inl (by decide)) _).follow.bind fun _ hc₂ => follow_get ?_
  have hlen := hc₂.length
  refine (follow_readArms hblock (by omega) hc₂).bind fun harms hc₃ => follow_pure ?_ hc₃
  refine sameTree_ofBlock ?_ hline harms
  rw [View.kind, View.kind, hsubject]

theorem follow_readFor {line line' : Nat} (hline : w.view'.line line' = w.view.line line)
    (hc : w.Facing c c') :
    w.Follow (SameTree w) (readFor block line) (readFor block' line') c c' := by
  unfold readFor
  refine (agree_name hc _).follow.bind fun hname hc₁ => ?_
  refine (agree_keyword hc₁ _).follow.bind fun _ hc₂ => ?_
  refine (agree_readIterable hc₂).follow.bind fun hiterable hc₃ => ?_
  refine (follow_braced hblock hc₃).bind fun hbody hc₄ => follow_pure ?_ hc₄
  refine sameTree_ofBlock ?_ hline hbody
  rw [View.kind, View.kind, hname, hiterable]

theorem follow_readWhile {line line' : Nat} (hline : w.view'.line line' = w.view.line line)
    (hc : w.Facing c c') :
    w.Follow (SameTree w) (readWhile block line) (readWhile block' line') c c' := by
  unfold readWhile
  refine (follow_parenthesized hc _).bind fun hcond hc₁ => ?_
  refine (follow_braced hblock hc₁).bind fun hbody hc₂ => follow_pure ?_ hc₂
  refine sameTree_ofBlock ?_ hline hbody
  rw [View.kind, View.kind, hcond]

omit hblock in
theorem follow_readParameters {n n' : Nat} (hn : n ≤ n') (seen : List String)
    (hc : w.Facing c c') :
    w.Follow Eq (readParameters n seen) (readParameters n' seen) c c' := by
  induction n generalizing n' seen c c' with
  | zero => exact follow_fail _
  | succ n ih =>
    obtain ⟨m, rfl⟩ := Nat.exists_eq_add_of_lt (Nat.lt_of_succ_le hn)
    unfold readParameters
    refine (agree_name hc _).follow.bind fun hparam hc₁ => ?_
    subst hparam
    refine follow_failIf Iff.rfl _ _ ?_
    refine (agree_accept hc₁ (.inl (by decide))).follow.bind fun hcomma hc₂ => ?_
    subst hcomma
    split
    · refine (ih (Nat.le_add_right n m) _ hc₂).bind fun hmore hc₃ => follow_pure ?_ hc₃
      rw [hmore]
    · exact (agree_mark hc₂ (.inl (by decide)) _).follow.bind fun _ hc₃ => follow_pure rfl hc₃

theorem follow_readFunction {line line' : Nat} (hline : w.view'.line line' = w.view.line line)
    (hc : w.Facing c c') :
    w.Follow (SameTree w) (readFunction block line) (readFunction block' line') c c' := by
  unfold readFunction
  refine (agree_name hc _).follow.bind fun hname hc₁ => ?_
  refine (agree_mark hc₁ (.inl (by decide)) _).follow.bind fun _ hc₂ => ?_
  refine (agree_accept hc₂ (.inl (by decide))).follow.bind fun hclosed hc₃ => ?_
  subst hname hclosed
  have hlen := hc₃.length
  refine .join (follow_pure rfl hc₃) (follow_get (follow_readParameters (by omega) [] hc₃))
    fun hparams hc₄ => (follow_braced hblock hc₄).bind fun hbody hc₅ => follow_pure ?_ hc₅
  subst hparams
  exact sameTree_ofBlock rfl hline hbody

/-! ## Whole scripts -/

theorem follow_afterKeyword? (helse : NoElse w.tail) {line line' : Nat}
    (hline : w.view'.line line' = w.view.line line) {word : Keyword} {rule : Reading Statement}
    (h : afterKeyword? block line word = some rule) :
    ∃ rule', afterKeyword? block' line' word = some rule' ∧
      ∀ {c c'}, w.Facing c c' → w.Follow (SameTree w) rule rule' c c' := by
  have hkind {r : Reading Kind}
      (hr : ∀ {c c'}, w.Facing c c' →
        w.Follow (fun k k' => w.view'.kind k' = w.view.kind k) r r c c') :
      ∀ {c c'}, w.Facing c c' →
        w.Follow (SameTree w) ((ofLine · line) <$> r) ((ofLine · line') <$> r) c c' := by
    intro c c' hc
    rw [map_eq_pure_bind, map_eq_pure_bind]
    exact (hr hc).bind fun hk hc₁ => follow_pure (sameTree_ofLine hk hline) hc₁
  have hexpr {what : String} {kind : SourceExpr → Kind}
      (hk : ∀ e e', w.SameExpr e e' → w.view'.kind (kind e') = w.view.kind (kind e)) :
      ∀ {c c'}, w.Facing c c' → w.Follow (SameTree w)
        (do return ofLine (kind (← restOfStatement what)) line)
        (do return ofLine (kind (← restOfStatement what)) line') c c' := by
    intro c c' hc
    exact (agree_restOfStatement hc _).follow.bind fun he hc₁ =>
      follow_pure (sameTree_ofLine (hk _ _ he) hline) hc₁
  cases word <;> cases h
  case import_ => exact ⟨_, rfl, hkind fun hc => (agree_readImport hc).follow⟩
  case declare => exact ⟨_, rfl, hkind fun hc => (agree_readDeclare hc).follow⟩
  case run =>
    refine ⟨_, rfl, fun hc => (agree_invocation hc).follow.bind fun hcall hc₁ => ?_⟩
    refine follow_pure (sameTree_ofLine ?_ hline) hc₁
    rw [View.kind, View.kind, hcall]
  case task => exact ⟨_, rfl, hkind follow_readTaskBlock⟩
  case export_ => exact ⟨_, rfl, hexpr fun e e' he => by rw [View.kind, View.kind, he]⟩
  case echo => exact ⟨_, rfl, hexpr fun e e' he => by rw [View.kind, View.kind, he]⟩
  case if_ => exact ⟨_, rfl, follow_readConditional hblock helse hline⟩
  case switch => exact ⟨_, rfl, follow_readSwitch hblock hline⟩
  case for_ => exact ⟨_, rfl, follow_readFor hblock hline⟩
  case while_ => exact ⟨_, rfl, follow_readWhile hblock hline⟩
  case break_ => exact ⟨_, rfl, follow_pure (sameTree_ofLine rfl hline)⟩
  case breakAll => exact ⟨_, rfl, follow_pure (sameTree_ofLine rfl hline)⟩
  case continue_ => exact ⟨_, rfl, follow_pure (sameTree_ofLine rfl hline)⟩
  case return_ => exact ⟨_, rfl, hkind fun hc => (agree_readReturn hc).follow⟩
  case function => exact ⟨_, rfl, follow_readFunction hblock hline⟩

theorem follow_rule? (helse : NoElse w.tail) (hc : w.Facing c c') (hne : c.ahead ≠ [])
    {label : String} {rule : Reading Statement} (h : rule? block c = some (label, rule)) :
    ∃ rule', rule? block' c' = some (label, rule') ∧ w.Follow (SameTree w) rule rule' c c' := by
  have hline := hc.line hne
  have hassign : w.Follow (SameTree w) ((ofLine · c.line) <$> readAssign)
      ((ofLine · c'.line) <$> readAssign) c c' := by
    rw [map_eq_pure_bind, map_eq_pure_bind]
    exact (agree_readAssign hc).follow.bind fun hk hc₁ =>
      follow_pure (sameTree_ofLine hk hline) hc₁
  have hsecond : (c'.second?.any fun t => t.isPunct .assign) =
      (c.second?.any fun t => t.isPunct .assign) :=
    (hc.advance (n := 1) (List.length_pos_iff.mpr hne)).isAtMark (.inl (by decide))
  obtain ⟨t, t', ht, ht', hl, -⟩ := hc.head_of_ne_nil hne
  unfold rule? at h ⊢
  rw [ht, Option.map_some] at h
  rw [ht', Option.map_some, hsecond, hc.isAtInvocation]
  generalize t.lexeme = l at h hl
  generalize t'.lexeme = l' at hl
  cases hl with
  | lineEnd => cases h
  | refl =>
    cases l with
    | keyword word =>
      obtain ⟨rule, hrule, hpair⟩ := Option.map_eq_some_iff.mp h
      cases hpair
      obtain ⟨rule', hrule', hfollow⟩ := follow_afterKeyword? hblock helse hline hrule
      refine ⟨_, by dsimp only; rw [hrule']; rfl, ?_⟩
      rw [seqRight_eq_bind, seqRight_eq_bind]
      exact (agree_next hc hne).follow.bind fun _ hc₁ => hfollow hc₁
    | ident s =>
      dsimp only at h ⊢
      split at h
      · rename_i hassignment
        cases h
        exact ⟨_, by rw [if_pos hassignment], hassign⟩
      · rename_i hno
        split at h
        · rename_i hcall
          cases h
          refine ⟨_, by rw [if_neg hno, if_pos hcall], ?_⟩
          refine (agree_invocation hc).follow.bind fun hcall hc₁ => ?_
          refine follow_pure (sameTree_ofLine ?_ hline) hc₁
          rw [View.kind, View.kind, hcall]
        · cases h
    | systemIdent s =>
      dsimp only at h ⊢
      split at h
      · rename_i hassignment
        cases h
        exact ⟨_, by rw [if_pos hassignment], hassign⟩
      · cases h
    | _ => cases h

theorem follow_readOne (helse : NoElse w.tail) (hc : w.Facing c c') (hne : c.ahead ≠ [])
    (token token' : Token) :
    w.Follow (SameTree w) (readOne block token) (readOne block' token') c c' := by
  unfold readOne
  refine follow_get ?_
  cases hrule : rule? block c with
  | none => exact follow_fail _
  | some found =>
    obtain ⟨label, rule⟩ := found
    obtain ⟨rule', hrule', hfollow⟩ := follow_rule? hblock helse hc hne hrule
    rw [hrule']
    refine hfollow.bind fun hs hc₁ => ?_
    exact (agree_endOf hc₁ label).follow.bind fun _ hc₂ => follow_pure hs hc₂

end

theorem stopsAt_alike {terminator : Terminator} {t t' : Token} (h : t.lexeme.Alike t'.lexeme) :
    terminator.stopsAt t' = terminator.stopsAt t := by
  cases terminator <;>
    simp only [Terminator.stopsAt, Token.isPunct_alike h, Token.isKeyword_alike h]

/-- The statements of a block are read again, and look alike. -/
theorem follow_readList (helse : NoElse w.tail) {n n' : Nat} (hn : n ≤ n')
    {terminator : Terminator} (hterm : terminator ≠ .endOfText) (hc : w.Facing c c') :
    w.Follow (SameTrees w) (readList n terminator) (readList n' terminator) c c' := by
  induction n generalizing n' terminator c c' with
  | zero => exact follow_fail _
  | succ n ih =>
    obtain ⟨m, rfl⟩ := Nat.exists_eq_add_of_lt (Nat.lt_of_succ_le hn)
    unfold readList
    refine follow_skipWhile hc (fun _ _ => Token.isLineEnd_alike) ?_ fun {c₁ c₁'} hc₁ hne _ => ?_
    · rintro ⟨source, passed, ahead⟩ rfl
      show ∃ d, (if terminator = .endOfText then (return [] : Reading (List Statement))
        else fail .openBlock) _ = .error d
      rw [if_neg hterm]
      exact ⟨_, rfl⟩
    refine follow_get ?_
    obtain ⟨t, t', ht, ht', hl, -⟩ := hc₁.head_of_ne_nil hne
    rw [ht, ht']
    dsimp only
    rw [stopsAt_alike hl]
    split
    · exact follow_pure sameTrees_nil hc₁
    rw [if_neg (fun h => hterm h.1), if_neg (fun h => hterm h.1)]
    have hblock := fun {terminator : Terminator} (hterm : terminator ≠ .endOfText)
      {c c' : Cursor} (hc : w.Facing c c') => ih (Nat.le_add_right n m) hterm hc
    refine (follow_readOne hblock helse hc₁ hne t t').bind fun hs hc₂ => ?_
    refine (ih (Nat.le_add_right n m) hterm hc₂).bind fun hss hc₃ => follow_pure ?_ hc₃
    exact .cons hs hss

end Statement

end PipelineScript
