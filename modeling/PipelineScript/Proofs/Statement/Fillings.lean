import PipelineScript.Proofs.Statement.Binders
import PipelineScript.Proofs.Statement.Cells

/-! # Statements with expressions filled in

Statements of a text in which names of system variables stand are read from the text with
expressions in their places, too (`Filling.follow_readList`). They are the same statements but for
their lines and what is filled in. A stored expression may turn out a bare call, and a colon must
not be filled in where a case ends. -/

namespace PipelineScript

open Reading

/-! ## The same statements -/

/-- What is stored is the same, or an expression that is read as a bare call. -/
inductive Source.Reread : Source → Source → Prop
  | same (s : Source) : Reread s s
  | call (call : Invocation) (e : SourceExpr) : Reread (.expr e) (.invoke call e)

/-- The kinds are the same but for what they store. -/
inductive Kind.Reread : Kind → Kind → Prop
  | same (k : Kind) : Reread k k
  | declare {s s' : Source} (name : String) (declaredType : Option String) : s.Reread s' →
      Reread (.declare name declaredType (some s)) (.declare name declaredType (some s'))
  | assign {s s' : Source} (name : String) : s.Reread s' → Reread (.assign name s) (.assign name s')

/-- The statements are the same but for what they store. -/
inductive Statement.Reread : Statement → Statement → Prop
  | intro {k k' : Kind} {shape : Shape} {line : Nat} {ss ss' : List Statement} :
      k.Reread k' → List.Forall₂ Reread ss ss' →
      Reread ⟨k, shape, line, ss⟩ ⟨k', shape, line, ss'⟩

/-! ## Bare calls -/

namespace Statement

variable {text : List Char} {code : List Token} {c c₁ : Cursor}

/-- A bare call is the rest of its statement. -/
theorem restOfStatement_of_bareCall? (hcode : Token.Balanced code) (hc : Within text code c)
    {s : Source} (h : bareCall? c = some (s, c₁)) (what : String) :
    ∃ call e c₂, s = .invoke call e ∧ restOfStatement what c = .ok (e, c₂) ∧
      c₂.source = c₁.source ∧ c₂.ahead = c₁.ahead := by
  obtain ⟨hat, call, e, rfl, hcall, hend, he⟩ := bareCall?_eq_some_iff.mp h
  obtain ⟨t, p, inner, q, pieces, hpass, ht, hp, hq, hargs⟩ :=
    takes_bareInvocation hcode hc hat hcall
  have hinner := hargs.balanced
  have hflat : t.lexeme.IsFlat := by rw [ht]; exact ⟨rfl, rfl⟩
  generalize hused : t :: p :: (inner ++ [q]) = used at hpass
  have hopened : p.lexeme.opened? = some .round := by rw [hp]; rfl
  have hclosed : q.lexeme.closed? = some .round := by rw [hq]; rfl
  have houtside : Lexeme.outside 0 (used.map Token.lexeme) = [t.lexeme, p.lexeme] := by
    rw [← hused, List.map_cons, List.map_cons, List.map_append, List.map_singleton,
      Lexeme.outside_flat hflat, Lexeme.outside_enclosed hopened (by decide) hinner]
  have hbalanced : Token.Balanced used := by
    rw [← hused]
    exact .cons hflat.1 hflat.2 (.enclose hopened hinner hclosed)
  have hgo : ∀ u : Token, u.lexeme ∈ Lexeme.outside 0 (used.map Token.lexeme) →
      (u.endsExpression || false) = false := by
    intro u hu
    rw [houtside, List.mem_cons, List.mem_singleton] at hu
    rw [Bool.or_false]
    rcases hu with hu | hu <;> simp [Token.endsExpression, Token.closes, Token.isPunct,
      Token.isLineEnd, hu, ht, hp, Lexeme.isLineEnd]
  have hlength : Token.expressionLength (fun _ => false) 0 c.ahead = used.length := by
    rw [hpass.ahead, hbalanced.expressionLength hgo, Token.expressionLength_eq_zero, Nat.add_zero]
    unfold Cursor.isAtStatementEnd at hend
    cases hhead : c₁.ahead.head? with
    | none => rfl
    | some u =>
      rw [Cursor.head?, hhead] at hend
      have hend : (u.isLineEnd || u.isPunct .closeBrace) = true := hend
      rcases Bool.or_eq_true_iff.mp hend with hu | hu <;> simp [Token.endsExpression, hu]
  have hcount : c.ahead.length - c₁.ahead.length = used.length := by
    rw [hpass.ahead, List.length_append]
    omega
  rw [hcount] at he
  refine ⟨call, e, c.advance used.length, rfl, ?_, hpass.source.symm, ?_⟩
  · refine Filling.expression_eq_ok.mpr ⟨?_, ?_⟩
    · rw [hlength]
      exact he
    · rw [hlength]
  · show c.ahead.drop used.length = c₁.ahead
    rw [hpass.ahead, List.drop_left]

end Statement

namespace Filling

open Statement

variable {f : Filling} {c c' c₁ : Cursor} {α α' β β' : Type}

/-- A bare call is no expression that ends early. -/
theorem Abreast.isAtInvocation (h : f.Abreast c c') (hat : c.isAtInvocation = true) :
    c'.isAtInvocation = true := by
  obtain ⟨xs, hxs, hc, hc'⟩ := h.row
  have hfit := fit_of_suffix hxs
  unfold Cursor.isAtInvocation at hat
  split at hat
  case h_2 => cases hat
  rename_i name line start stop p rest hahead
  have hp : p.lexeme = .punct .openParen := of_decide_eq_true hat
  rw [hc] at hahead
  match xs, hahead with
  | [x], hahead => cases (List.cons.inj hahead).2
  | x :: y :: xs, hahead =>
    obtain ⟨hx, hahead⟩ := List.cons.inj hahead
    obtain ⟨hy, -⟩ := List.cons.inj hahead
    obtain ⟨t', hmany, ht'⟩ := hfit.plain List.mem_cons_self fun name hname => by
      rw [hx] at hname
      cases hname
    obtain ⟨p', hmany', hp'⟩ := hfit.tail.plain List.mem_cons_self fun name hname => by
      rw [hy, hp] at hname
      cases hname
    obtain ⟨l, n, i, j⟩ := t'
    rw [hx] at ht'
    obtain rfl : l = .ident name := ht'
    have hahead' : c'.ahead = ⟨.ident name, n, i, j⟩ :: p' :: Cell.manys xs := by
      rw [hc', Cell.manys_cons, Cell.manys_cons, hmany, hmany']
      rfl
    unfold Cursor.isAtInvocation
    rw [hahead']
    exact decide_eq_true (hp'.trans (by rw [hy, hp]))

theorem Abreast.within (h : f.Abreast c c') :
    Within f.text' (Cell.manys f.cells) c' ∧ Token.Balanced (Cell.manys f.cells) := by
  obtain ⟨xs, ⟨before, hbefore⟩, hc, hc'⟩ := h.row
  refine ⟨⟨h.source', ?_⟩, (f.fit.nest []).trans f.balanced⟩
  rw [hc', ← hbefore, Cell.manys_append]
  exact List.suffix_append _ _

/-- The tokens between two places are those of the same cells. -/
theorem Abreast.between {c₁' : Cursor} (h : f.Abreast c c') (h₁ : f.Abreast c₁ c₁')
    (hlen : c₁.ahead.length ≤ c.ahead.length) :
    f.Row (c.ahead.take (c.ahead.length - c₁.ahead.length))
      (c'.ahead.take (c'.ahead.length - c₁'.ahead.length)) := by
  obtain ⟨xs, hxs, hc, hc'⟩ := h.row
  obtain ⟨ys, hys, hc₁, hc₁'⟩ := h₁.row
  rw [hc, hc₁, Cell.length_ones, Cell.length_ones] at hlen
  obtain ⟨used, rfl⟩ := List.suffix_of_suffix_length_le hys hxs hlen
  refine ⟨used, (List.prefix_append used ys).isInfix.trans hxs.isInfix, ?_, ?_⟩
  · rw [hc, hc₁, Cell.ones_append, List.length_append, Nat.add_sub_cancel, List.take_left]
  · rw [hc', hc₁', Cell.manys_append, List.length_append, Nat.add_sub_cancel, List.take_left]

/-- The tree with what is filled in and without lines. -/
def view (f : Filling) : View := ⟨f.fill, fun _ => 0⟩

theorem view_invocation {call call' : Invocation} (h : f.FillsCall call call') :
    call' = f.view.invocation call := h

theorem follow_bareCall? (hc : f.Abreast c c') {s : Source} (h : bareCall? c = some (s, c₁)) :
    ∃ c₁', bareCall? c' = some (f.view.source s, c₁') ∧ f.Abreast c₁ c₁' ∧
      c₁.ahead.length ≤ c.ahead.length := by
  obtain ⟨hat, call, e, rfl, hcall, hend, he⟩ := bareCall?_eq_some_iff.mp h
  obtain ⟨call', c₁', hcall', hfills, hc₁, hlen⟩ := follow_invocation hc call c₁ hcall trivial
  rw [hc.source] at he
  have hslice := (hc.between hc₁ hlen).slice he
  refine ⟨c₁', bareCall?_eq_some_iff.mpr ?_, hc₁, hlen⟩
  have hend' := hc₁.isAtStatementEnd.trans hend
  refine ⟨hc.isAtInvocation hat, call', f.fill e, ?_, hcall', hend', ?_⟩
  · rw [hfills]
    rfl
  · rw [hc.source', hslice]

/-! ## Statements on a line -/

/-- What is stored is the same but for what is filled in. -/
def FillsSource (f : Filling) (s s' : Source) : Prop := (f.view.source s).Reread s'

theorem follow_readSource (hc : f.Abreast c c') :
    f.Follow f.FillsSource readSource readSource c c' := by
  unfold readSource
  refine Follow.bind (follow_acceptKeyword hc rfl) fun {found found' c c'} hfound hc => ?_
  subst hfound
  split
  · refine Follow.bind (follow_invocation hc) fun hcall hc₁ => follow_pure ?_ hc₁
    rw [view_invocation hcall]
    exact .same _
  refine follow_get ?_
  cases hbare : bareCall? c with
  | some found =>
    obtain ⟨s, c₁⟩ := found
    obtain ⟨c₁', hbare', hc₁, hlen⟩ := follow_bareCall? hc hbare
    rw [hbare']
    intro s' c₂ hr _
    cases hr
    exact ⟨_, c₁', rfl, .same _, hc₁, hlen⟩
  | none =>
    intro s c₁ hr _
    obtain ⟨e, c₂, he, hpure⟩ := bind_eq_ok.mp hr
    cases hpure
    obtain ⟨e', c₁', he', rfl, hc₁, hlen⟩ := follow_restOfStatement hc _ e c₁ he trivial
    cases hbare' : bareCall? c' with
    | none => exact ⟨_, c₁', bind_eq_ok.mpr ⟨_, _, he', rfl⟩, .same _, hc₁, hlen⟩
    | some found =>
      -- what is filled in makes it a call
      obtain ⟨s', c₂'⟩ := found
      obtain ⟨hwithin, hbalanced⟩ := hc.within
      obtain ⟨call, e', c₃, rfl, hrest, hsource, hahead⟩ :=
        restOfStatement_of_bareCall? hbalanced hwithin hbare' "a value"
      cases he'.symm.trans hrest
      obtain ⟨xs, hxs, hrow, hrow'⟩ := hc₁.row
      refine ⟨_, c₂', rfl, .call call (f.fill e), ?_, hlen⟩
      exact ⟨hc₁.source, hsource.symm.trans hc₁.source', xs, hxs, hrow, hahead.symm.trans hrow'⟩

/-- The kinds are the same but for what is filled in. -/
def FillsKind (f : Filling) (k k' : Kind) : Prop :=
  (f.view.kind k).Reread (View.withoutLines.kind k')

variable {ok : α → Cursor → Prop} {done : β → Cursor → Prop} {rel : α → α' → Prop}
  {rel' : β → β' → Prop} {r : Reading α} {r' : Reading α'}

theorem FollowIf.map {g : α → β} {g' : α' → β'} (h : f.FollowIf ok rel r r' c c')
    (hok : ∀ a c₁, done (g a) c₁ → ok a c₁) (hrel : ∀ a a', rel a a' → rel' (g a) (g' a')) :
    f.FollowIf done rel' (g <$> r) (g' <$> r') c c' := by
  rw [map_eq_pure_bind, map_eq_pure_bind]
  refine h.bind (fun a c₁ b c₂ hr hdone => ?_) fun ha hc => follow_pure (hrel _ _ ha) hc
  cases hr
  exact hok a c₁ hdone

/-- The cursor does not stand before a dot: no statement ends there. -/
def OffDot : α → Cursor → Prop := fun _ c => c.isAtMark .dot = false

theorem accept_of_isAtMark {p q : Punct} (h : c.isAtMark p = true) (hq : p ≠ q) :
    accept q c = .ok (false, c) := by
  rw [Twin.accept_eq, if_neg (by rw [isAtMark_of_ne h hq]; exact Bool.false_ne_true)]

theorem acceptKeyword_of_isAtMark {p : Punct} (h : c.isAtMark p = true) (k : Keyword) :
    acceptKeyword k c = .ok (false, c) := by
  obtain ⟨t, ht, hpunct⟩ := (Option.any_eq_true _ _).mp h
  have hat : c.isAtKeyword k = false := by
    rw [Cursor.isAtKeyword, ht, Option.any_some, Token.isKeyword, of_decide_eq_true hpunct]
    rfl
  rw [Twin.acceptKeyword_eq, if_neg (by rw [hat]; exact Bool.false_ne_true)]

theorem follow_readImport (hc : f.Abreast c c') :
    f.FollowIf OffDot f.FillsKind readImport readImport c c' := by
  unfold readImport
  refine FollowIf.bind (follow_dottedName hc _) ?_ fun hpath hc₁ => ?_
  · intro path c₁ kind c₂ hr hdone
    cases hat : c₁.isAtMark .dot with
    | false => rfl
    | true =>
      obtain ⟨found, c₃, hfound, hr⟩ := bind_eq_ok.mp hr
      rw [acceptKeyword_of_isAtMark hat] at hfound
      cases hfound
      cases hr
      exact hat.symm.trans hdone
  refine Follow.bind (follow_acceptKeyword hc₁ rfl) fun hfound hc₂ => ?_
  subst hpath hfound
  refine (follow_name hc₂ _).join (follow_pure rfl hc₂) (fun _ _ _ _ _ _ => trivial)
    fun hname hc₃ => ?_
  subst hname
  exact follow_pure (.same _) hc₃

theorem follow_readDeclare (hc : f.Abreast c c') :
    f.FollowIf OffDot f.FillsKind readDeclare readDeclare c c' := by
  unfold readDeclare
  refine Follow.bind (follow_name hc _) fun hname hc₁ => ?_
  refine Follow.bind (follow_accept hc₁ (hc₁.isAtMark rfl))
    fun {typed typed' c₂ c₂'} htyped hc₂ => ?_
  subst hname htyped
  have htype : f.FollowIf OffDot Eq (some <$> dottedName "a type name")
      (some <$> dottedName "a type name") c₂ c₂' :=
    FollowIf.map (follow_dottedName hc₂ _) (fun _ _ h => h) fun _ _ h => congrArg some h
  refine FollowIf.join htype (follow_pure rfl hc₂) ?_ fun htype hc₃ => ?_
  · intro declaredType c₁ kind c₂ hr hdone
    cases hat : c₁.isAtMark .dot with
    | false => exact hat
    | true =>
      obtain ⟨found, c₃, hfound, hr⟩ := bind_eq_ok.mp hr
      rw [accept_of_isAtMark hat (by decide)] at hfound
      cases hfound
      cases hr
      exact hdone
  refine Follow.bind (follow_accept hc₃ (hc₃.isAtMark rfl))
    fun {stored stored' c₄ c₄'} hstored hc₄ => ?_
  subst htype hstored
  have hvalue : f.Follow (Option.Rel f.FillsSource) (some <$> readSource) (some <$> readSource)
      c₄ c₄' := (follow_readSource hc₄).map (fun _ _ _ => trivial) fun _ _ h => .some h
  refine FollowIf.join hvalue (follow_pure .none hc₄) (fun _ _ _ _ _ _ => trivial)
    fun hvalue hc₅ => follow_pure ?_ hc₅
  cases hvalue with
  | none => exact .same _
  | some hvalue => exact .declare _ _ (by rwa [View.source_withoutLines])

theorem follow_readAssign (hc : f.Abreast c c') :
    f.Follow f.FillsKind readAssign readAssign c c' := by
  unfold readAssign
  refine Follow.bind (follow_name hc _) fun hname hc₁ => ?_
  refine Follow.bind (follow_mark hc₁ _ _) fun _ hc₂ => ?_
  refine Follow.bind (follow_readSource hc₂) fun hvalue hc₃ => follow_pure ?_ hc₃
  subst hname
  exact .assign _ (by rwa [View.source_withoutLines])

theorem follow_readReturn (hc : f.Abreast c c') :
    f.Follow f.FillsKind readReturn readReturn c c' := by
  unfold readReturn
  refine follow_get ?_
  rw [hc.isAtStatementEnd]
  split
  · exact follow_pure (.same _) hc
  · refine Follow.bind (follow_restOfStatement hc _) fun he hc₁ => follow_pure ?_ hc₁
    rw [he]
    exact .same _

theorem follow_endOf (hc : f.Abreast c c') (statement : String) :
    f.Follow (fun _ _ => True) (endOf statement) (endOf statement) c c' := by
  unfold endOf
  refine follow_get ?_
  rw [hc.isAtStatementEnd]
  split
  · exact follow_pure trivial hc
  · exact follow_fail _

theorem follow_readIterable (hc : f.Abreast c c') :
    f.Follow (fun i i' => i' = f.view.iterable i) readIterable readIterable c c' := by
  obtain ⟨xs, hxs, hahead, hahead'⟩ := hc.row
  have hlength : Token.expressionLength (fun _ => false) 0 (Cell.manys xs) = _ :=
    (fit_of_suffix hxs).expressionLength (fun _ _ _ => rfl) 0 (fun _ _ _ _ _ => rfl)
      fun _ _ _ => rfl
  have htokens : f.Follow f.Row (expressionTokens fun _ => false)
      (expressionTokens fun _ => false) c c' := by
    unfold expressionTokens
    refine follow_get ?_
    rw [hahead', hlength, hahead]
    exact follow_take hc hxs hahead hahead' _
  unfold readIterable
  refine Follow.bind htokens fun hrow hc₁ => ?_
  obtain ⟨ys, hys, rfl, rfl⟩ := hrow
  rcases (f.fit.sublist hys.subset).splitRange? 0 with ⟨hnone, hnone'⟩ | ⟨n, i, hsome, hsome'⟩
  · rw [hnone, hnone']
    refine Follow.bind (follow_sourceOf hc₁ ⟨ys, hys, rfl, rfl⟩ _) fun he hc₂ => follow_pure ?_ hc₂
    rw [he]
    rfl
  · rw [hsome, hsome']
    have hbefore := (List.take_prefix n ys).isInfix.trans hys
    have hafter := (List.drop_suffix (n + 1) ys).isInfix.trans hys
    refine Follow.bind (follow_sourceOf hc₁ ⟨_, hbefore, rfl, rfl⟩ _) fun hstart hc₂ => ?_
    refine Follow.bind (follow_sourceOf hc₂ ⟨_, hafter, rfl, rfl⟩ _) fun hstop hc₃ =>
      follow_pure ?_ hc₃
    rw [hstart, hstop]
    rfl

/-! ## Task blocks -/

theorem follow_line (hc : f.Abreast c c') :
    f.Follow (fun _ _ => True) Reading.line Reading.line c c' :=
  follow_get (follow_pure trivial hc)

theorem follow_readTaskKey (hc : f.Abreast c c') : f.Follow Eq readTaskKey readTaskKey c c' := by
  unfold readTaskKey
  refine follow_get ?_
  rcases hc.head with ⟨hnil, hnil'⟩ | ⟨t, t', ht, ht', hheads⟩
  · rw [Cursor.head?, hnil]
    exact follow_fail _
  · rw [ht, ht', Option.map_some, Option.map_some]
    generalize hl : t.lexeme = l at hheads
    generalize t'.lexeme = l' at hheads
    have hadvance {s : String} (hname : ∀ name, t.lexeme ≠ .systemIdent name) :
        f.Follow Eq (do advance 1; return s) (do advance 1; return s) c c' :=
      Follow.bind (follow_advance hc ht hname) fun _ hc₁ => follow_pure rfl hc₁
    cases hheads with
    | filled => exact follow_fail _
    | same =>
      cases l with
      | ident s => exact hadvance fun name hname => by cases hl.symm.trans hname
      | str s => exact hadvance fun name hname => by cases hl.symm.trans hname
      | _ => exact follow_fail _

theorem isEntryGap_heads {t t' : Token} (h : t.lexeme.Heads t'.lexeme) :
    isEntryGap t' = isEntryGap t := by
  rw [isEntryGap, isEntryGap, Token.isLineEnd_heads h, Token.isPunct_heads h rfl]

theorem isEntryGap_systemIdent (t : Token) (name : String) (h : t.lexeme = .systemIdent name) :
    isEntryGap t = false := by
  simp [isEntryGap, Token.isLineEnd, Token.isPunct, h, Lexeme.isLineEnd]

theorem isLineEnd_systemIdent (t : Token) (name : String) (h : t.lexeme = .systemIdent name) :
    t.isLineEnd = false := by
  rw [Token.isLineEnd, h]
  rfl

theorem follow_skipWhile (hc : f.Abreast c c') {p : Token → Bool}
    (hp : ∀ t t' : Token, t.lexeme.Heads t'.lexeme → p t' = p t)
    (hname : ∀ t name, t.lexeme = .systemIdent name → p t = false) :
    f.Follow (fun _ _ => True) (skipWhile p) (skipWhile p) c c' := by
  intro _ c₁ hr _
  cases hr
  exact ⟨_, _, rfl, trivial, hc.skipWhile hp hname, c.length_skipWhile p⟩

theorem follow_skipGaps (hc : f.Abreast c c') :
    f.Follow (fun _ _ => True) (skipWhile isEntryGap) (skipWhile isEntryGap) c c' :=
  follow_skipWhile hc (fun _ _ => isEntryGap_heads) isEntryGap_systemIdent

theorem follow_skipLineEnds (hc : f.Abreast c c') :
    f.Follow (fun _ _ => True) (skipWhile Token.isLineEnd) (skipWhile Token.isLineEnd) c c' :=
  follow_skipWhile hc (fun _ _ => Token.isLineEnd_heads) isLineEnd_systemIdent

/-- The entries are the same but for what is filled in. -/
def FillsEntries (f : Filling) (ts ts' : List TaskEntry) : Prop :=
  ts'.map View.withoutLines.entry = ts.map f.view.entry

theorem follow_readTaskEntries {n n' : Nat} (hn : n ≤ n') (seen : List String)
    (hc : f.Abreast c c') :
    f.Follow f.FillsEntries (readTaskEntries n seen) (readTaskEntries n' seen) c c' := by
  induction n generalizing n' seen c c' with
  | zero => exact follow_fail _
  | succ n ih =>
    obtain ⟨m, rfl⟩ := Nat.exists_eq_add_of_lt (Nat.lt_of_succ_le hn)
    unfold readTaskEntries
    refine Follow.bind (follow_skipGaps hc) fun _ hc₁ => ?_
    refine Follow.bind (follow_accept hc₁ (hc₁.isAtMark rfl)) fun hclosed hc₂ => ?_
    subst hclosed
    split
    · exact follow_pure rfl hc₂
    refine Follow.bind (follow_line hc₂) fun _ hc₃ => ?_
    refine Follow.bind (follow_readTaskKey hc₃) fun hkey hc₄ => ?_
    subst hkey
    refine follow_failIf _ _ ?_
    refine Follow.bind (follow_mark hc₄ _ _) fun _ hc₅ => ?_
    refine Follow.bind (follow_invocation hc₅) fun hcall hc₆ => follow_get ?_
    refine follow_failUnless ?_ _ _
      (Follow.bind (ih (Nat.le_add_right n m) _ hc₆) fun hentries hc₇ => follow_pure ?_ hc₇)
    · rw [hc₆.isAtStatementEnd, hc₆.isAtMark rfl]
    · rw [FillsEntries, List.map_cons, List.map_cons, hentries, view_invocation hcall]
      simp only [View.entry, View.invocation_withoutLines]
      rfl

theorem follow_readTaskBlock (hc : f.Abreast c c') :
    f.Follow f.FillsKind readTaskBlock readTaskBlock c c' := by
  unfold readTaskBlock
  refine Follow.bind (follow_name hc _) fun hname hc₁ => ?_
  refine Follow.bind (follow_mark hc₁ _ _) fun _ hc₂ => follow_get ?_
  refine Follow.bind (follow_readTaskEntries (length_le hc₂) [] hc₂) fun htasks hc₃ =>
    follow_pure ?_ hc₃
  rw [FillsKind, View.kind, View.kind, hname, htasks]
  exact .same _

/-! ## Statements with a block -/

/-- The trees are the same but for lines and for what is filled in. -/
def FillsTree (f : Filling) (s s' : Statement) : Prop :=
  (f.view.statement s).Reread (View.withoutLines.statement s')

def FillsTrees (f : Filling) (ss ss' : List Statement) : Prop :=
  List.Forall₂ Reread (f.view.statements ss) (View.withoutLines.statements ss')

theorem fillsTrees_nil : f.FillsTrees [] [] := by
  rw [FillsTrees, View.statements_nil, View.statements_nil]
  exact .nil

theorem FillsTrees.cons {s s' : Statement} {ss ss' : List Statement} (h : f.FillsTree s s')
    (hs : f.FillsTrees ss ss') : f.FillsTrees (s :: ss) (s' :: ss') := by
  rw [FillsTrees, View.statements_cons, View.statements_cons]
  exact .cons h hs

theorem fillsTree_ofBlock {k k' : Kind} {n n' : Nat} {ss ss' : List Statement}
    (hk : f.FillsKind k k') (hs : f.FillsTrees ss ss') :
    f.FillsTree (ofBlock k n ss) (ofBlock k' n' ss') := by
  rw [FillsTree, View.statement_ofBlock, View.statement_ofBlock]
  exact .intro hk hs

theorem fillsTree_ofLine {k k' : Kind} {n n' : Nat} (hk : f.FillsKind k k') :
    f.FillsTree (ofLine k n) (ofLine k' n') := by
  rw [FillsTree, View.statement_ofLine, View.statement_ofLine]
  exact .intro hk .nil

/-- Nothing with a colon outside of brackets is filled in for a case. -/
def CalmTree (f : Filling) (s : Statement) : Prop :=
  s.Every fun k => ∀ e, k = .case_ e → f.calm e

def CalmTrees (f : Filling) (ss : List Statement) : Prop := ∀ s ∈ ss, f.CalmTree s

/-- The statements of a block, which the next reading may only put together. -/
theorem calmTrees_of_ofBlock {k : Kind} {n : Nat} {body more : List Statement}
    (h : f.CalmTrees (ofBlock k n body :: more)) : f.CalmTrees body ∧ f.CalmTrees more :=
  ⟨(h _ List.mem_cons_self).children, (List.forall_mem_cons.mp h).2⟩

section

variable {block block' : Terminator → Reading (List Statement)}
  (hblock : ∀ {terminator : Terminator} {c c' : Cursor}, f.Abreast c c' →
    f.FollowIf (fun ss _ => f.CalmTrees ss) f.FillsTrees (block terminator) (block' terminator)
      c c')
include hblock

theorem follow_braced (hc : f.Abreast c c') :
    f.FollowIf (fun ss _ => f.CalmTrees ss) f.FillsTrees (braced block) (braced block') c c' := by
  unfold braced
  refine Follow.bind (follow_mark hc _ _) fun _ hc₁ => ?_
  refine FollowIf.bind (hblock hc₁) ?_ fun hbody hc₂ => ?_
  · intro body c₁ body' c₂ hr hcalm
    obtain ⟨_, c₃, -, hpure⟩ := bind_eq_ok.mp hr
    cases hpure
    exact hcalm
  exact Follow.bind (follow_mark hc₂ _ _) fun _ hc₃ => follow_pure hbody hc₃

omit hblock in
/-- A block and the branches behind it: the arms of a conditional and of a switch. -/
theorem follow_branch {k k' : Kind} {line line' : Nat}
    {body body' more more' : Reading (List Statement)}
    (hk : f.FillsKind k k')
    (hbody : f.FollowIf (fun ss _ => f.CalmTrees ss) f.FillsTrees body body' c c')
    (hmore : ∀ {c₁ c₁'}, f.Abreast c₁ c₁' → c₁.ahead.length ≤ c.ahead.length →
      f.FollowIf (fun ss _ => f.CalmTrees ss) f.FillsTrees more more' c₁ c₁') :
    f.FollowIf (fun ss _ => f.CalmTrees ss) f.FillsTrees
      (do return ofBlock k line (← body) :: (← more))
      (do return ofBlock k' line' (← body') :: (← more')) c c' := by
  refine FollowIf.bind_onward hbody ?_ fun hss hc₁ _ hlen => ?_
  · intro body c₁ ss c₂ hr hcalm
    obtain ⟨more, c₃, -, hpure⟩ := bind_eq_ok.mp hr
    cases hpure
    exact (calmTrees_of_ofBlock hcalm).1
  refine FollowIf.bind (hmore hc₁ hlen) ?_ fun hrest hc₂ =>
    follow_pure (.cons (fillsTree_ofBlock hk hss) hrest) hc₂
  intro more c₁ ss c₂ hr hcalm
  cases hr
  exact (calmTrees_of_ofBlock hcalm).2

omit hblock in
theorem follow_noElse (hc : f.Abreast c c')
    (hat : (c.skipWhile Token.isLineEnd).isAtKeyword .else_ = false) (n n' : Nat) :
    f.FollowIf (fun ss _ => f.CalmTrees ss) f.FillsTrees (readElse block n) (readElse block' n')
      c c' := by
  have hgap := hc.skipWhile (fun _ _ => Token.isLineEnd_heads) isLineEnd_systemIdent
  intro ss c₁ hr _
  cases (readElse_eq_nil hat n).symm.trans hr
  have hat' := (hgap.isAtKeyword rfl).trans hat
  exact ⟨[], c', readElse_eq_nil hat' n', fillsTrees_nil, hc, Nat.le_refl _⟩

theorem follow_readElse {n n' : Nat} (hn : n ≤ n') (hc : f.Abreast c c')
    (hlen : c.ahead.length ≤ n) :
    f.FollowIf (fun ss _ => f.CalmTrees ss) f.FillsTrees (readElse block n) (readElse block' n')
      c c' := by
  induction n generalizing n' c c' with
  | zero =>
    have hnil : c.ahead = [] := List.eq_nil_of_length_eq_zero (Nat.le_zero.mp hlen)
    refine follow_noElse hc ?_ 0 n'
    rw [Cursor.isAtKeyword, Cursor.head?, Cursor.ahead_skipWhile, hnil]
    rfl
  | succ n ih =>
    obtain ⟨m, rfl⟩ := Nat.exists_eq_add_of_lt (Nat.lt_of_succ_le hn)
    have hgap := hc.skipWhile (fun _ _ => Token.isLineEnd_heads) isLineEnd_systemIdent
    by_cases hat : (c.skipWhile Token.isLineEnd).isAtKeyword .else_ = true
    · obtain ⟨t, ht, hkeyword⟩ := (Option.any_eq_true _ _).mp hat
      have hc₁ := (hgap.next ht (ne_systemIdent_of_isKeyword hkeyword)).1
      have hpos := List.length_pos_iff.mpr (Twin.ne_nil_of_isAtKeyword hat)
      have hshort : ((c.skipWhile Token.isLineEnd).advance 1).ahead.length < c.ahead.length := by
        have hskip := c.length_skipWhile Token.isLineEnd
        simp only [Cursor.advance, List.length_drop] at hpos ⊢
        omega
      unfold readElse
      refine follow_get ?_
      dsimp only
      rw [hgap.isAtKeyword rfl, if_pos hat, if_pos hat]
      refine follow_set ?_ (Nat.le_of_lt hshort)
      refine Follow.bind_onward (follow_acceptKeyword hc₁ rfl) fun hif hc₂ _ hlen₂ => ?_
      subst hif
      split
      · refine Follow.bind_onward (follow_parenthesized hc₂ _) fun hcond hc₃ _ hlen₃ => ?_
        refine follow_branch (by rw [hcond]; exact .same _) (follow_braced hblock hc₃)
          fun hc₄ hlen₄ => ih (Nat.le_add_right n m) hc₄ (by omega)
      · refine FollowIf.bind (follow_braced hblock hc₂) ?_ fun hbody hc₃ => follow_pure ?_ hc₃
        · intro body c₁ ss c₂ hr hcalm
          cases hr
          exact (calmTrees_of_ofBlock hcalm).1
        exact .cons (fillsTree_ofBlock (.same _) hbody) fillsTrees_nil
    · rw [Bool.not_eq_true] at hat
      exact follow_noElse hc hat _ _

theorem follow_readConditional {line line' : Nat} (hc : f.Abreast c c') :
    f.FollowIf (fun s _ => f.CalmTree s) f.FillsTree (readConditional block line)
      (readConditional block' line') c c' := by
  unfold readConditional
  refine Follow.bind (follow_parenthesized hc _) fun hcond hc₁ => ?_
  refine FollowIf.bind (follow_braced hblock hc₁) ?_ fun hbody hc₂ => follow_get ?_
  · intro body c₁ s c₂ hr hcalm
    obtain ⟨_, _, hget, hr⟩ := bind_eq_ok.mp hr
    cases hget
    obtain ⟨more, c₃, -, hpure⟩ := bind_eq_ok.mp hr
    cases hpure
    exact (calmTrees_of_ofBlock hcalm.children).1
  refine FollowIf.bind (follow_readElse hblock (length_le hc₂) hc₂ (Nat.le_refl _)) ?_
    fun hmore hc₃ => follow_pure ?_ hc₃
  · intro more c₁ s c₂ hr hcalm
    cases hr
    exact (calmTrees_of_ofBlock hcalm.children).2
  refine fillsTree_ofBlock (.same _) (.cons (fillsTree_ofBlock ?_ hbody) hmore)
  rw [hcond]
  exact .same _

theorem follow_readArms {n n' : Nat} (hn : n ≤ n') (hc : f.Abreast c c') :
    f.FollowIf (fun ss _ => f.CalmTrees ss) f.FillsTrees (readArms block n) (readArms block' n')
      c c' := by
  induction n generalizing n' c c' with
  | zero => exact follow_fail _
  | succ n ih =>
    obtain ⟨m, rfl⟩ := Nat.exists_eq_add_of_lt (Nat.lt_of_succ_le hn)
    unfold readArms
    refine Follow.bind (follow_skipLineEnds hc) fun _ hc₁ => ?_
    refine Follow.bind (follow_accept hc₁ (hc₁.isAtMark rfl)) fun hclosed hc₂ => ?_
    subst hclosed
    split
    · exact follow_pure fillsTrees_nil hc₂
    refine Follow.bind (follow_line hc₂) fun _ hc₃ => ?_
    refine Follow.bind (follow_acceptKeyword hc₃ rfl) fun hcase hc₄ => ?_
    subst hcase
    split
    · -- what is filled in for the value must not end it
      refine FollowIf.bind (follow_expression (isPunct_of_lexeme .colon)
        (isPunct_of_systemIdent .colon) f.colonless hc₄ _) ?_ fun hvalue hc₅ => ?_
      · intro value c₁ ss c₂ hr hcalm
        obtain ⟨_, c₃, -, hr⟩ := bind_eq_ok.mp hr
        obtain ⟨body, c₄, -, hr⟩ := bind_eq_ok.mp hr
        obtain ⟨more, c₅, -, hpure⟩ := bind_eq_ok.mp hr
        cases hpure
        exact (hcalm _ List.mem_cons_self).kind value rfl
      refine Follow.bind (follow_mark hc₅ _ _) fun _ hc₆ => ?_
      exact follow_branch (by rw [hvalue]; exact .same _) (hblock hc₆)
        fun hc₇ _ => ih (Nat.le_add_right n m) hc₇
    refine Follow.bind (follow_acceptKeyword hc₄ rfl) fun hdefault hc₅ => ?_
    subst hdefault
    split
    · refine Follow.bind (follow_mark hc₅ _ _) fun _ hc₆ => ?_
      exact follow_branch (.same _) (hblock hc₆) fun hc₇ _ => ih (Nat.le_add_right n m) hc₇
    · exact follow_fail _

theorem follow_readSwitch {line line' : Nat} (hc : f.Abreast c c') :
    f.FollowIf (fun s _ => f.CalmTree s) f.FillsTree (readSwitch block line)
      (readSwitch block' line') c c' := by
  unfold readSwitch
  refine Follow.bind (follow_parenthesized hc _) fun hsubject hc₁ => ?_
  refine Follow.bind (follow_mark hc₁ _ _) fun _ hc₂ => follow_get ?_
  refine FollowIf.bind (follow_readArms hblock (length_le hc₂) hc₂) ?_ fun harms hc₃ =>
    follow_pure ?_ hc₃
  · intro arms c₁ s c₂ hr hcalm
    cases hr
    exact hcalm.children
  refine fillsTree_ofBlock ?_ harms
  rw [hsubject]
  exact .same _

/-- The statements in braces behind the head of a statement. -/
theorem follow_bracedOf {k k' : Kind} (hk : f.FillsKind k k') {line line' : Nat}
    (hc : f.Abreast c c') :
    f.FollowIf (fun s _ => f.CalmTree s) f.FillsTree (return ofBlock k line (← braced block))
      (return ofBlock k' line' (← braced block')) c c' := by
  refine FollowIf.bind (follow_braced hblock hc) ?_ fun hbody hc₁ =>
    follow_pure (fillsTree_ofBlock hk hbody) hc₁
  intro body c₁ s c₂ hr hcalm
  cases hr
  exact hcalm.children

theorem follow_readFor {line line' : Nat} (hc : f.Abreast c c') :
    f.FollowIf (fun s _ => f.CalmTree s) f.FillsTree (readFor block line) (readFor block' line')
      c c' := by
  unfold readFor
  refine Follow.bind (follow_name hc _) fun hname hc₁ => ?_
  refine Follow.bind (follow_keyword hc₁ rfl) fun _ hc₂ => ?_
  refine Follow.bind (follow_readIterable hc₂) fun hiterable hc₃ => follow_bracedOf hblock ?_ hc₃
  rw [hname, hiterable, FillsKind, View.kind, View.kind, View.iterable_withoutLines]
  exact .same _

theorem follow_readWhile {line line' : Nat} (hc : f.Abreast c c') :
    f.FollowIf (fun s _ => f.CalmTree s) f.FillsTree (readWhile block line)
      (readWhile block' line') c c' := by
  unfold readWhile
  refine Follow.bind (follow_parenthesized hc _) fun hcond hc₁ => follow_bracedOf hblock ?_ hc₁
  rw [hcond]
  exact .same _

omit hblock in
theorem follow_readParameters {n n' : Nat} (hn : n ≤ n') (seen : List String)
    (hc : f.Abreast c c') : f.Follow Eq (readParameters n seen) (readParameters n' seen) c c' := by
  induction n generalizing n' seen c c' with
  | zero => exact follow_fail _
  | succ n ih =>
    obtain ⟨m, rfl⟩ := Nat.exists_eq_add_of_lt (Nat.lt_of_succ_le hn)
    unfold readParameters
    refine Follow.bind (follow_name hc _) fun hparam hc₁ => ?_
    subst hparam
    refine follow_failIf _ _ ?_
    refine Follow.bind (follow_accept hc₁ (hc₁.isAtMark rfl)) fun hcomma hc₂ => ?_
    subst hcomma
    split
    · refine Follow.bind (ih (Nat.le_add_right n m) _ hc₂) fun hmore hc₃ => follow_pure ?_ hc₃
      rw [hmore]
    · exact Follow.bind (follow_mark hc₂ _ _) fun _ hc₃ => follow_pure rfl hc₃

theorem follow_readFunction {line line' : Nat} (hc : f.Abreast c c') :
    f.FollowIf (fun s _ => f.CalmTree s) f.FillsTree (readFunction block line)
      (readFunction block' line') c c' := by
  unfold readFunction
  refine Follow.bind (follow_name hc _) fun hname hc₁ => ?_
  refine Follow.bind (follow_mark hc₁ _ _) fun _ hc₂ => ?_
  refine Follow.bind (follow_accept hc₂ (hc₂.isAtMark rfl)) fun {_ _ c₃ c₃'} hclosed hc₃ => ?_
  subst hname hclosed
  have hparams : f.Follow Eq (do readParameters (← get).ahead.length [])
      (do readParameters (← get).ahead.length []) c₃ c₃' :=
    follow_readParameters (length_le hc₃) [] hc₃
  refine FollowIf.join (follow_pure rfl hc₃) hparams (fun _ _ _ _ _ _ => trivial)
    fun hparams hc₄ => ?_
  subst hparams
  refine follow_bracedOf hblock ?_ hc₄
  exact .same _

/-! ## Whole scripts -/

/-- The statement is read through its end, where no dot stands. -/
def Settled (f : Filling) (s : Statement) (c : Cursor) : Prop :=
  f.CalmTree s ∧ c.isAtMark .dot = false

theorem follow_afterKeyword? {line line' : Nat} {word : Keyword} {rule : Reading Statement}
    (h : afterKeyword? block line word = some rule) :
    ∃ rule', afterKeyword? block' line' word = some rule' ∧
      ∀ {c c'}, f.Abreast c c' → f.FollowIf f.Settled f.FillsTree rule rule' c c' := by
  have hkind {r : Reading Kind}
      (hr : ∀ {c c'}, f.Abreast c c' → f.FollowIf OffDot f.FillsKind r r c c') :
      ∀ {c c'}, f.Abreast c c' → f.FollowIf f.Settled f.FillsTree ((ofLine · line) <$> r)
        ((ofLine · line') <$> r) c c' :=
    fun hc => (hr hc).map (fun _ _ h => h.2) fun _ _ => fillsTree_ofLine
  have hexpr (what : String) (kind : SourceExpr → Kind)
      (hk : ∀ e, f.FillsKind (kind e) (kind (f.fill e))) :
      ∀ {c c'}, f.Abreast c c' → f.FollowIf f.Settled f.FillsTree
        (do return ofLine (kind (← restOfStatement what)) line)
        (do return ofLine (kind (← restOfStatement what)) line') c c' := fun hc =>
    Follow.bind (follow_restOfStatement hc _) fun {e e' _ _} he hc₁ => by
      obtain rfl : e' = f.fill e := he
      exact follow_pure (fillsTree_ofLine (hk e)) hc₁
  have hblocked {r r' : Reading Statement}
      (hr : ∀ {c c'}, f.Abreast c c' → f.FollowIf (fun s _ => f.CalmTree s) f.FillsTree r r' c c') :
      ∀ {c c'}, f.Abreast c c' → f.FollowIf f.Settled f.FillsTree r r' c c' :=
    fun hc => (hr hc).mono fun _ _ h => h.1
  have hbare (kind : Kind) (hk : f.FillsKind kind kind) : ∀ {c c'}, f.Abreast c c' →
      f.FollowIf f.Settled f.FillsTree (return ofLine kind line) (return ofLine kind line') c c' :=
    fun hc => follow_pure (fillsTree_ofLine hk) hc
  cases word <;> cases h
  case import_ => exact ⟨_, rfl, hkind follow_readImport⟩
  case declare => exact ⟨_, rfl, hkind follow_readDeclare⟩
  case run =>
    refine ⟨_, rfl, fun hc => Follow.bind (follow_invocation hc) fun hcall hc₁ => ?_⟩
    refine follow_pure (fillsTree_ofLine ?_) hc₁
    rw [view_invocation hcall, FillsKind, View.kind, View.kind, View.invocation_withoutLines]
    exact .same _
  case task => exact ⟨_, rfl, hkind fun hc => (follow_readTaskBlock hc).mono⟩
  case export_ => exact ⟨_, rfl, hexpr _ .exportValue fun _ => .same _⟩
  case echo => exact ⟨_, rfl, hexpr _ .echo fun _ => .same _⟩
  case if_ => exact ⟨_, rfl, hblocked (follow_readConditional hblock)⟩
  case switch => exact ⟨_, rfl, hblocked (follow_readSwitch hblock)⟩
  case for_ => exact ⟨_, rfl, hblocked (follow_readFor hblock)⟩
  case while_ => exact ⟨_, rfl, hblocked (follow_readWhile hblock)⟩
  case break_ => exact ⟨_, rfl, hbare .breakLoop (.same _)⟩
  case breakAll => exact ⟨_, rfl, hbare .breakAll (.same _)⟩
  case continue_ => exact ⟨_, rfl, hbare .continueLoop (.same _)⟩
  case return_ => exact ⟨_, rfl, hkind fun hc => (follow_readReturn hc).mono⟩
  case function => exact ⟨_, rfl, hblocked (follow_readFunction hblock)⟩

omit hblock in
/-- Nobody assigns to a system variable. -/
theorem readAssign_of_systemIdent {t : Token} {s : String} (ht : c.head? = some t)
    (hl : t.lexeme = .systemIdent s) : ∃ d, readAssign c = .error d := by
  obtain ⟨source, passed, ahead⟩ := c
  obtain ⟨rest, rfl⟩ := List.head?_eq_some_iff.mp (show ahead.head? = some t from ht)
  obtain ⟨l, _, _, _⟩ := t
  cases hl
  exact ⟨_, rfl⟩

omit hblock in
theorem Abreast.second_isPunct (hc : f.Abreast c c') {t : Token} (ht : c.head? = some t)
    (hname : ∀ name, t.lexeme ≠ .systemIdent name) {p : Punct}
    (hp : (Lexeme.punct p).mayBegin = false) :
    (c'.second?.any fun t => t.isPunct p) = c.second?.any fun t => t.isPunct p :=
  (hc.next ht hname).1.isAtMark hp

theorem follow_rule? (hc : f.Abreast c c') {label : String} {rule : Reading Statement}
    (h : rule? block c = some (label, rule)) :
    (∃ d, rule c = .error d) ∨ ∃ rule', rule? block' c' = some (label, rule') ∧
      f.FollowIf f.Settled f.FillsTree rule rule' c c' := by
  have hassign : f.FollowIf f.Settled f.FillsTree ((ofLine · c.line) <$> readAssign)
      ((ofLine · c'.line) <$> readAssign) c c' :=
    FollowIf.map (follow_readAssign hc) (fun _ _ _ => trivial) fun _ _ => fillsTree_ofLine
  have hreserved {t : Token} {s : String} (ht : c.head? = some t)
      (hl : t.lexeme = .systemIdent s)
      (h : (if (c.second?.any fun t => t.isPunct .assign) = true then
        some ("assignment", (ofLine · c.line) <$> readAssign) else none) = some (label, rule)) :
      ∃ d, rule c = .error d := by
    split at h
    · cases h
      obtain ⟨d, hd⟩ := readAssign_of_systemIdent ht hl
      refine ⟨d, ?_⟩
      rw [map_eq_pure_bind]
      show (readAssign c >>= fun s => _) = _
      rw [hd]
      rfl
    · cases h
  rcases hc.head with ⟨hnil, -⟩ | ⟨t, t', ht, ht', hheads⟩
  · rw [rule?, Cursor.head?, hnil] at h
    cases h
  unfold rule? at h ⊢
  rw [ht, Option.map_some] at h
  rw [ht', Option.map_some]
  generalize hl : t.lexeme = l at h hheads
  generalize t'.lexeme = l' at hheads
  cases hheads with
  | filled => exact .inl (hreserved ht hl h)
  | same =>
    cases l with
    | systemIdent s => exact .inl (hreserved ht hl h)
    | keyword word =>
      obtain ⟨rule₀, hrule, hpair⟩ := Option.map_eq_some_iff.mp h
      cases hpair
      obtain ⟨rule', hrule', hfollow⟩ := follow_afterKeyword? hblock hrule
      refine .inr ⟨_, by dsimp only; rw [hrule']; rfl, ?_⟩
      rw [seqRight_eq_bind, seqRight_eq_bind]
      exact Follow.bind (follow_advance hc ht fun name hname => by cases hl.symm.trans hname)
        fun _ hc₁ => hfollow hc₁
    | ident s =>
      have hname : ∀ name, t.lexeme ≠ .systemIdent name := fun name hname => by
        cases hl.symm.trans hname
      dsimp only at h ⊢
      rw [hc.second_isPunct ht hname rfl]
      split at h
      · rename_i hassignment
        cases h
        exact .inr ⟨_, by rw [if_pos hassignment], hassign⟩
      · rename_i hno
        split at h
        · rename_i hcall
          cases h
          refine .inr ⟨_, by rw [if_neg hno, if_pos (hc.isAtInvocation hcall)], ?_⟩
          refine Follow.bind (follow_invocation hc) fun hcall hc₁ => ?_
          refine follow_pure (fillsTree_ofLine ?_) hc₁
          rw [view_invocation hcall, FillsKind, View.kind, View.kind,
            View.invocation_withoutLines]
          exact .same _
        · cases h
    | _ => cases h

omit hblock in
theorem isAtStatementEnd_of_endOf {statement : String} {u : Unit}
    (h : endOf statement c = .ok (u, c₁)) : c.isAtStatementEnd = true := by
  cases hend : c.isAtStatementEnd with
  | true => rfl
  | false =>
    have hread : endOf statement c =
        (if c.isAtStatementEnd = true then pure ()
          else fail (.trailing ((c.head?.map Token.shown).getD "") statement) : Reading Unit) c :=
      rfl
    rw [hend] at hread
    cases h.symm.trans hread

omit hblock in
theorem not_isAtMark_of_isAtStatementEnd (h : c.isAtStatementEnd = true) :
    c.isAtMark .dot = false := by
  rw [Cursor.isAtMark]
  unfold Cursor.isAtStatementEnd at h
  cases hhead : c.head? with
  | none => rfl
  | some t =>
    obtain ⟨l, _, _, _⟩ := t
    rw [hhead] at h
    rcases Bool.or_eq_true_iff.mp h with hl | hl
    · cases l <;> first | rfl | cases hl
    · cases of_decide_eq_true hl
      rfl

theorem follow_readOne (hc : f.Abreast c c') (token token' : Token) :
    f.FollowIf (fun s _ => f.CalmTree s) f.FillsTree (readOne block token)
      (readOne block' token') c c' := by
  unfold readOne
  refine follow_get ?_
  cases hrule : rule? block c with
  | none => exact follow_fail _
  | some found =>
    obtain ⟨label, rule⟩ := found
    rcases follow_rule? hblock hc hrule with ⟨d, hd⟩ | ⟨rule', hrule', hfollow⟩
    · refine follow_of_error ⟨d, ?_⟩
      show (rule c >>= fun s => _) = _
      rw [hd]
      rfl
    · rw [hrule']
      refine FollowIf.bind hfollow ?_ fun hs hc₁ => ?_
      · intro s c₁ s' c₂ hr hcalm
        obtain ⟨_, c₃, hend, hpure⟩ := bind_eq_ok.mp hr
        cases hpure
        exact ⟨hcalm, not_isAtMark_of_isAtStatementEnd (isAtStatementEnd_of_endOf hend)⟩
      exact Follow.bind (follow_endOf hc₁ label) fun _ hc₂ => follow_pure hs hc₂

end

theorem stopsAt_heads {terminator : Terminator} {t t' : Token} (h : t.lexeme.Heads t'.lexeme) :
    terminator.stopsAt t' = terminator.stopsAt t := by
  cases terminator
  · rfl
  · exact Token.isPunct_heads h rfl
  · rw [Terminator.stopsAt, Terminator.stopsAt, Token.isPunct_heads h rfl,
      Token.isKeyword_heads h rfl, Token.isKeyword_heads h rfl]

/-- What the statements of the first text are, the statements of the second one are, too. -/
theorem follow_readList {n n' : Nat} (hn : n ≤ n') {terminator : Terminator}
    (hc : f.Abreast c c') :
    f.FollowIf (fun ss _ => f.CalmTrees ss) f.FillsTrees (readList n terminator)
      (readList n' terminator) c c' := by
  induction n generalizing n' terminator c c' with
  | zero => exact follow_fail _
  | succ n ih =>
    obtain ⟨m, rfl⟩ := Nat.exists_eq_add_of_lt (Nat.lt_of_succ_le hn)
    have hread {terminator : Terminator} {c c' : Cursor} (hc : f.Abreast c c') :
        f.FollowIf (fun ss _ => f.CalmTrees ss) f.FillsTrees (readList n terminator)
          (readList (n + m) terminator) c c' := ih (Nat.le_add_right n m) hc
    unfold readList
    refine Follow.bind (follow_skipLineEnds hc) fun _ hc₁ => follow_get ?_
    rcases hc₁.head with ⟨hnil, hnil'⟩ | ⟨t, t', ht, ht', hheads⟩
    · rw [Cursor.head?, Cursor.head?, hnil, hnil']
      dsimp only [List.head?_nil]
      split
      · exact follow_pure fillsTrees_nil hc₁
      · exact follow_fail _
    rw [ht, ht']
    dsimp only
    rw [stopsAt_heads hheads, Token.isPunct_heads hheads rfl]
    split
    · exact follow_pure fillsTrees_nil hc₁
    split
    · exact follow_fail _
    refine FollowIf.bind (follow_readOne hread hc₁ t t') ?_ fun hs hc₂ => ?_
    · intro s c₁ ss c₂ hr hcalm
      obtain ⟨rest, c₃, -, hpure⟩ := bind_eq_ok.mp hr
      cases hpure
      exact hcalm s List.mem_cons_self
    refine FollowIf.bind (hread hc₂) ?_ fun hss hc₃ => follow_pure (.cons hs hss) hc₃
    intro rest c₁ ss c₂ hr hcalm
    cases hr
    exact (List.forall_mem_cons.mp hcalm).2

end Filling

end PipelineScript
