import Mathlib
import PipelineScript.Proofs.Statement.PrintedLines
import PipelineScript.Proofs.Statement.ReadPrintable

/-! # Printing and reading again

A script that was read is printed as a text that is read as the same statements, on other lines
(`Statement.ofSource_print`). What a printed statement needs behind it is the end of its line and
no further arm of a conditional; `Returns` says that it is then read again, and is carried from the
statements of a block to the one that holds it. -/

namespace PipelineScript

open Token PrintItem

namespace Statement

open Reading

variable {text : List Char} {ts us : List Token}

/-! ## Iterables and parameters -/

theorem reads_readIterable {iterable : Iterable} (h : iterable.Printable)
    (hs : Spelled text iterable.items ts)
    (hus : us.head?.all (fun t => t.endsExpression || false) = true) :
    Reads text readIterable (ts ++ us) us (· = iterable) := by
  have hstop : ∀ t t' : Token, t.lexeme.Alike t'.lexeme → false = false := fun _ _ _ => rfl
  unfold readIterable
  cases iterable with
  | range start stop inclusive =>
    obtain ⟨⟨own, hstart, hnone⟩, own', hstop'⟩ := h
    obtain ⟨before, ts, rfl, hbefore, hs⟩ := hs.uncons
    obtain ⟨op, ts, rfl, hop, hs⟩ := hs.space.token rfl
    obtain ⟨after, ts, rfl, hafter, hs⟩ := hs.space.uncons
    obtain rfl := hs.eq_nil
    rw [List.append_nil]
    have hquotes := quotes_of_spells hbefore hstart.toOwns
    have hquotes' := quotes_of_spells hafter hstop'.toOwns
    have hrange : (op.isPunct .rangeThrough || op.isPunct .rangeBelow) = true := by
      cases inclusive <;> simp [Token.isPunct, hop]
    have hthrough : op.isPunct .rangeThrough = inclusive := by
      cases inclusive <;> simp [Token.isPunct, hop]
    -- the operator stands between both expressions, outside of brackets
    have hneutral : op.endsExpression = false ∧ op.depthAfter 0 = 0 := by
      cases inclusive <;> simp [endsExpression, closes, opens, depthAfter, Token.isPunct,
        Token.isLineEnd, Lexeme.isLineEnd, hop]
    have hlen : expressionLength (fun _ => false) 0 ((before ++ op :: after) ++ us) =
        (before ++ op :: after).length := by
      have hfirst := @expressionLength_append before (fun _ => false) [] hquotes.balanced
        (length_of_fills hstop hstart hquotes) (op :: (after ++ us))
      have hsecond := @expressionLength_append after (fun _ => false) [] hquotes'.balanced
        (length_of_fills hstop hstop' hquotes') us
      have hgo : expressionLength (fun _ => false) 0 (op :: (after ++ us)) =
          expressionLength (fun _ => false) 0 (after ++ us) + 1 := by
        rw [expressionLength, if_neg (by simp [hneutral.1]), hneutral.2]
      rw [expressionLength_eq_zero hus, Nat.add_zero] at hsecond
      rw [List.append_assoc, List.cons_append, List.length_append, List.length_cons]
      exact hfirst.trans (congrArg _ (hgo.trans (congrArg (· + 1) hsecond)))
    have hsplit : splitRange? 0 (before ++ op :: after) = some (before, inclusive, after) := by
      have h := @splitRange?_append before op [] hquotes.balanced
        (hquotes.splitRange?_eq_none_iff.mpr hnone) hrange after
      rwa [hthrough] at h
    refine (reads_expressionTokens hlen).bind fun tokens htokens => ?_
    subst htokens
    rw [hsplit]
    refine (reads_sourceOf (sourceOf?_of_fills hstart hquotes) _).bind fun a ha => ?_
    refine (reads_sourceOf (sourceOf?_of_fills hstop' hquotes') _).bind fun b hb => reads_pure ?_
    rw [ha, hb]
  | each e =>
    obtain ⟨own, hfills, hnone⟩ := h
    obtain ⟨used, ts, rfl, hspells, hs⟩ := hs.uncons
    obtain rfl := hs.eq_nil
    rw [List.append_nil]
    have hquotes := quotes_of_spells hspells hfills.toOwns
    have hlen : expressionLength (fun _ => false) 0 (used ++ us) = used.length := by
      have h := @expressionLength_append used (fun _ => false) [] hquotes.balanced
        (length_of_fills hstop hfills hquotes) us
      rwa [expressionLength_eq_zero hus, Nat.add_zero] at h
    refine (reads_expressionTokens hlen).bind fun tokens htokens => ?_
    subst htokens
    rw [hquotes.splitRange?_eq_none_iff.mpr hnone]
    refine (reads_sourceOf (sourceOf?_of_fills hfills hquotes) _).bind fun a ha => reads_pure ?_
    rw [ha]

theorem reads_readParameters {param : String} {params seen : List String} {n : Nat}
    (hnodup : (param :: params).Nodup) (hseen : ∀ p ∈ param :: params, p ∉ seen)
    (hs : Spelled text (closed ((param :: params).map .name)) ts) (hn : ts.length ≤ n) :
    Reads text (readParameters n seen) (ts ++ us) us (· = param :: params) := by
  induction params generalizing param seen ts n with
  | nil =>
    obtain ⟨word, ts, rfl, hword, hs⟩ := hs.token rfl
    obtain ⟨last, ts, rfl, hlast, hs⟩ := hs.token rfl
    obtain rfl := hs.eq_nil
    obtain ⟨n, rfl⟩ : ∃ m, n = m + 1 := ⟨n - 1, by simp at hn; omega⟩
    unfold readParameters
    refine (reads_name hword _).bind fun name hname => ?_
    subst hname
    rw [if_neg (by simpa using hseen name List.mem_cons_self)]
    refine (reads_accept_not ?_).bind fun found hfound => ?_
    · simp [Token.isPunct, hlast]
    subst hfound
    exact (reads_mark hlast _).bind fun _ _ => reads_pure rfl
  | cons param' params ih =>
    obtain ⟨word, ts, rfl, hword, hs⟩ := hs.token rfl
    obtain ⟨comma, ts, rfl, hcomma, hparams⟩ := hs.token rfl
    obtain ⟨hnew, hmore⟩ := List.forall_mem_cons.mp hseen
    obtain ⟨hmem, hrest⟩ := List.nodup_cons.mp hnodup
    simp only [List.length_cons] at hn
    obtain ⟨n, rfl⟩ : ∃ m, n = m + 1 := ⟨n - 1, by omega⟩
    unfold readParameters
    refine (reads_name hword _).bind fun name hname => ?_
    subst hname
    rw [if_neg (by simpa using hnew)]
    refine (reads_accept hcomma).bind fun found hfound => ?_
    subst hfound
    have hseen' : ∀ p ∈ param' :: params, p ∉ name :: seen := by
      intro p hp hmem'
      obtain rfl | hmem' := List.mem_cons.mp hmem'
      · exact hmem hp
      · exact hmore p hp hmem'
    refine (ih hrest hseen' hparams.space (by omega)).bind fun more hm => reads_pure ?_
    rw [hm]

/-- What is between the parentheses of a function, of which there may be nothing. -/
theorem reads_parameters {params : List String} {α : Type} {f : List String → Reading α}
    {vs : List Token} {ok : α → Prop} (hparams : params.Nodup)
    (hs : Spelled text (closed (params.map .name)) ts) (hf : Reads text (f params) us vs ok) :
    Reads text (do
      let closed ← accept .closeParen
      if closed = true then pure [] >>= f
      else do
        let c ← get
        readParameters c.ahead.length [] >>= f) (ts ++ us) vs ok := by
  cases params with
  | nil =>
    obtain ⟨last, ts, rfl, hlast, hs⟩ := hs.token rfl
    obtain rfl := hs.eq_nil
    refine (reads_accept hlast).bind fun closed hclosed => ?_
    subst hclosed
    exact hf
  | cons param params =>
    have hclosed : (ts ++ us).head?.any (fun t => t.isPunct .closeParen) = false := by
      obtain ⟨t, ts, rfl, ht, -⟩ := hs.token rfl
      simp [Token.isPunct, ht]
    have hlen : ts.length ≤ (ts ++ us).length := List.length_append ▸ Nat.le_add_right _ _
    refine (reads_accept_not hclosed).bind fun closed hfound => ?_
    subst hfound
    refine reads_get fun passed => Reads.bind
      (reads_readParameters hparams (fun _ _ => List.not_mem_nil) hs hlen) fun params' heq => ?_
    subst heq
    exact hf

/-! ## Lists of statements -/

/-- The token may begin a statement, in a script or a block. -/
def begins (t : Token) : Bool :=
  !(t.isLineEnd || t.isPunct .closeBrace || t.isKeyword .else_ || t.isKeyword .case_ ||
    t.isKeyword .default_)

theorem begins_of_ident {t : Token} {s : String} (h : t.lexeme = .ident s) : begins t = true := by
  simp [begins, Token.isLineEnd, Token.isPunct, Token.isKeyword, h, Lexeme.isLineEnd]

theorem begins_of_keyword {t : Token} {k : Keyword} (h : t.lexeme = .keyword k)
    (hk : [Keyword.else_, .case_, .default_].contains k = false) : begins t = true := by
  cases k <;> first | (cases hk; done) |
    simp [begins, Token.isLineEnd, Token.isPunct, Token.isKeyword, h, Lexeme.isLineEnd]

/-- What is printed for a statement of the kind begins with a name or a keyword. -/
theorem begins_of_items {kind : Kind} {body : List PrintItem} (hplace : kind.place = .body)
    (hne : kind ≠ .conditional) (hs : Spelled text (kind.items body) ts) :
    ∃ t rest, ts = t :: rest ∧ begins t = true := by
  have hkeyword {k : Keyword} {items : List PrintItem}
      (hs : Spelled text (PrintItem.keyword k :: items) ts)
      (hk : [Keyword.else_, .case_, .default_].contains k = false) :
      ∃ t rest, ts = t :: rest ∧ begins t = true := by
    obtain ⟨t, rest, rfl, ht, -⟩ := hs.token rfl
    exact ⟨t, rest, rfl, begins_of_keyword ht hk⟩
  cases kind <;> first | (cases hplace; done) | (exact absurd rfl hne) | skip
  case assign target value =>
    obtain ⟨t, rest, rfl, ht, -⟩ := hs.token rfl
    exact ⟨t, rest, rfl, begins_of_ident ht⟩
  case call call =>
    obtain ⟨path, rest, rfl, ⟨first, more, -, hpath⟩, -⟩ := hs.uncons
    obtain ⟨t, path, rfl, ht, -⟩ := List.map_eq_cons_iff.mp hpath
    exact ⟨t, _, rfl, begins_of_ident ht⟩
  case returnValue value => cases value <;> exact hkeyword hs (by decide)
  all_goals exact hkeyword hs (by decide)

theorem stopsAt_of_begins {t : Token} (h : begins t = true) (terminator : Terminator) :
    terminator.stopsAt t = false := by
  simp only [begins, Bool.not_eq_true', Bool.or_eq_false_iff] at h
  cases terminator <;> simp [Terminator.stopsAt, h]

/-- The tokens behind a block stop it. -/
def Closes (terminator : Terminator) (rest : List Token) : Prop :=
  (rest = [] → terminator = .endOfText) ∧ ∀ t ∈ rest.head?, terminator.stopsAt t = true

theorem closes_cons {terminator : Terminator} {t : Token} (h : terminator.stopsAt t = true)
    (rest : List Token) : Closes terminator (t :: rest) :=
  ⟨fun hnil => (List.cons_ne_nil _ _ hnil).elim, fun _ hu => Option.some.inj hu ▸ h⟩

theorem Closes.isLineEnd {terminator : Terminator} {rest : List Token}
    (h : Closes terminator rest) : rest.head?.any Token.isLineEnd = false := by
  cases rest with
  | nil => rfl
  | cons t rest =>
    have hstop := h.2 t rfl
    obtain ⟨l, _, _, _⟩ := t
    cases terminator <;> cases l <;> first | rfl | cases hstop

theorem Closes.noElse {terminator : Terminator} {rest : List Token} {f : Token}
    (h : Closes terminator rest) (hf : f.isLineEnd = true) : NoElse (f :: rest) := by
  intro t ht
  rw [List.dropWhile_cons_of_pos hf] at ht
  cases rest with
  | nil => cases ht
  | cons u rest =>
    rw [List.dropWhile_cons_of_neg (by simpa using h.isLineEnd)] at ht
    obtain rfl : u = t := Option.some.inj ht
    have hstop := h.2 u rfl
    obtain ⟨l, _, _, _⟩ := u
    cases terminator with
    | endOfText => cases hstop
    | closeBrace => cases l <;> first | rfl | cases hstop
    | nextArm =>
      cases l with
      | keyword k => cases k <;> first | rfl | cases hstop
      | _ => rfl

/-- The print of the statement is read as the statement again. -/
structure Returns (s : Statement) : Prop where
  begins : ∀ {text : List Char} {ts : List Token}, Spelled text s.items ts →
    ∃ t rest, ts = t :: rest ∧ begins t = true
  reads : ∀ {text : List Char} {ts us : List Token} {n : Nat}, Spelled text s.items ts →
    Stopped us → NoElse us → ts.length ≤ n → ∀ token,
      Reads text (readOne (readList n) token) (ts ++ us) us (Same s)

theorem reads_readList_nil {n : Nat} {terminator : Terminator} {gap rest : List Token}
    (hgap : ∀ t ∈ gap, t.isLineEnd = true) (hrest : Closes terminator rest) :
    Reads text (readList (n + 1) terminator) (gap ++ rest) rest (SameAll []) := by
  unfold readList
  refine (reads_skipWhile hgap hrest.isLineEnd).bind fun _ _ => reads_get fun passed => ?_
  cases rest with
  | nil =>
    have hend : (if terminator = .endOfText then return [] else fail .openBlock :
        Reading (List Statement)) = return [] := if_pos (hrest.1 rfl)
    rw [Cursor.head?, List.head?_nil]
    dsimp only
    rw [hend]
    exact reads_pure sameAll_nil
  | cons t rest =>
    rw [Cursor.head?, List.head?_cons]
    dsimp only
    rw [if_pos (hrest.2 t rfl)]
    exact reads_pure sameAll_nil

theorem reads_readList_cons {n : Nat} {terminator : Terminator} {gap vs rest : List Token}
    {t : Token} {s : Statement} {ss : List Statement} (hgap : ∀ t ∈ gap, t.isLineEnd = true)
    (ht : begins t = true) (hone : Reads text (readOne (readList n) t) (t :: ts) vs (Same s))
    (hmore : Reads text (readList n terminator) vs rest (SameAll ss)) :
    Reads text (readList (n + 1) terminator) (gap ++ t :: ts) rest (SameAll (s :: ss)) := by
  have hbegins := ht
  simp only [begins, Bool.not_eq_true', Bool.or_eq_false_iff] at hbegins
  unfold readList
  refine (reads_skipWhile hgap (by simp [hbegins])).bind fun _ _ => reads_get fun passed => ?_
  rw [Cursor.head?, List.head?_cons]
  dsimp only
  rw [stopsAt_of_begins ht, if_neg Bool.false_ne_true, if_neg (by simp [hbegins])]
  refine hone.bind fun s' hs => hmore.bind fun ss' hss => reads_pure ?_
  exact SameAll.cons hs hss

/-- A row of statements, with the end of a line behind it, before what stops them. -/
theorem reads_statements {s : Statement} {ss : List Statement} {n : Nat} {terminator : Terminator}
    {ts₁ ts₂ gap rest : List Token} {f : Token} (hs : Returns s) (hss : ∀ s ∈ ss, Returns s)
    (h₁ : Spelled text s.items ts₁) (h₂ : Spelled text (itemsOf [feed] ss) ts₂)
    (hgap : ∀ t ∈ gap, t.isLineEnd = true) (hf : f.isLineEnd = true)
    (hrest : Closes terminator rest) (hn : ts₁.length + ts₂.length ≤ n) :
    Reads text (readList (n + 1) terminator) (gap ++ (ts₁ ++ (ts₂ ++ f :: rest))) rest
      (SameAll (s :: ss)) := by
  induction ss generalizing s n ts₁ ts₂ gap with
  | nil =>
    rw [itemsOf_nil] at h₂
    obtain rfl := h₂.eq_nil
    obtain ⟨t, ts, rfl, ht⟩ := hs.begins h₁
    rw [List.length_cons, List.length_nil] at hn
    obtain ⟨n, rfl⟩ : ∃ m, n = m + 1 := ⟨n - 1, by omega⟩
    refine reads_readList_cons hgap ht
      (hs.reads h₁ (show Stopped (f :: rest) from hf) (hrest.noElse hf) ?_ t) ?_
    · rw [List.length_cons]
      omega
    · show Reads text (readList (n + 1) terminator) ([f] ++ rest) rest (SameAll [])
      exact reads_readList_nil (List.forall_mem_singleton.mpr hf) hrest
  | cons s' ss ih =>
    rw [itemsOf_cons] at h₂
    obtain ⟨hs', hss⟩ := List.forall_mem_cons.mp hss
    obtain ⟨first, ts₂, rfl, hfirst, hmore⟩ := h₂.append
    obtain ⟨f', ts₁', rfl, hf', hfirst⟩ := hfirst.token rfl
    obtain ⟨t, ts, rfl, ht⟩ := hs.begins h₁
    have hf' := isLineEnd_of_lexeme hf'
    simp only [List.length_cons, List.length_append] at hn
    obtain ⟨n, rfl⟩ : ∃ m, n = m + 1 := ⟨n - 1, by omega⟩
    have hmore := ih hs' hss hfirst hmore (List.forall_mem_singleton.mpr hf') (n := n) (by omega)
    have helse : NoElse ((f' :: ts₁' ++ ts₂) ++ f :: rest) := by
      obtain ⟨t', ts', rfl, ht'⟩ := hs'.begins hfirst
      simp only [begins, Bool.not_eq_true', Bool.or_eq_false_iff] at ht'
      intro u hu
      simp only [List.cons_append, List.dropWhile_cons, hf', ht', if_true] at hu
      simp at hu
      subst hu
      exact ht'.1.1.2
    have hstopped : Stopped ((f' :: ts₁' ++ ts₂) ++ f :: rest) := hf'
    refine reads_readList_cons hgap ht (hs.reads h₁ hstopped helse ?_ t) ?_
    · rw [List.length_cons]
      omega
    · simpa only [List.nil_append, List.append_assoc, List.cons_append] using hmore

/-- The statements of a block. -/
theorem reads_readList {ss : List Statement} {n : Nat} {terminator : Terminator}
    {rest : List Token} {f : Token} (hss : ∀ s ∈ ss, Returns s)
    (hs : Spelled text (itemsOf [feed] ss) ts) (hf : f.isLineEnd = true)
    (hrest : Closes terminator rest) (hn : ts.length < n) :
    Reads text (readList n terminator) (ts ++ f :: rest) rest (SameAll ss) := by
  cases ss with
  | nil =>
    rw [itemsOf_nil] at hs
    obtain rfl := hs.eq_nil
    obtain ⟨n, rfl⟩ : ∃ m, n = m + 1 := ⟨n - 1, by omega⟩
    show Reads text (readList (n + 1) terminator) ([f] ++ rest) rest (SameAll [])
    exact reads_readList_nil (List.forall_mem_singleton.mpr hf) hrest
  | cons s ss =>
    rw [itemsOf_cons] at hs
    obtain ⟨hone, hss⟩ := List.forall_mem_cons.mp hss
    obtain ⟨first, ts₂, rfl, hfirst, hmore⟩ := hs.append
    obtain ⟨f', ts₁, rfl, hf', hfirst⟩ := hfirst.token rfl
    have hf' := isLineEnd_of_lexeme hf'
    simp only [List.length_cons, List.length_append] at hn
    obtain ⟨n, rfl⟩ : ∃ m, n = m + 1 := ⟨n - 1, by omega⟩
    have hread := reads_statements hone hss hfirst hmore (List.forall_mem_singleton.mpr hf') hf
      hrest (n := n) (by omega)
    simpa only [List.nil_append, List.append_assoc, List.cons_append] using hread

theorem reads_braced {ss : List Statement} {n : Nat} (hss : ∀ s ∈ ss, Returns s)
    (hs : Spelled text (PrintItem.braced (itemsOf [feed] ss)) ts) (hn : ts.length ≤ n) :
    Reads text (braced (readList n)) (ts ++ us) us (SameAll ss) := by
  obtain ⟨first, ts, rfl, hfirst, hs⟩ := hs.token rfl
  obtain ⟨body, ts, rfl, hbody, hs⟩ := hs.append
  obtain ⟨f, ts, rfl, hf, hs⟩ := hs.token rfl
  obtain ⟨last, ts, rfl, hlast, hs⟩ := hs.token rfl
  obtain rfl := hs.eq_nil
  have hf := isLineEnd_of_lexeme hf
  have hstops : Terminator.closeBrace.stopsAt last = true := decide_eq_true hlast
  simp only [List.length_cons, List.length_append] at hn
  unfold braced
  simp only [List.cons_append, List.append_assoc, List.nil_append]
  refine (reads_mark hfirst _).bind fun _ _ => ?_
  refine (reads_readList hss hbody hf (closes_cons hstops us) (by omega)).bind fun ss' hss' => ?_
  exact (reads_mark hlast _).bind fun _ _ => reads_pure hss'

/-! ## Statements with a block -/

/-- What is known of a statement in its place: where statements of a script stand, its print is read
again; in other places the prints of its children are. -/
def Rereads : Place → Statement → Prop
  | .body, s => Returns s
  | place, s => ∃ kind line body, s = ofBlock kind line body ∧ kind.place = place ∧
      kind.Printable ∧ ∀ b ∈ body, Returns b

theorem reads_readElse_else {block : Terminator → Reading (List Statement)} {k : Nat} {t : Token}
    {ok : List Statement → Prop} (ht : t.lexeme = .keyword .else_)
    (h : Reads text (do
      if ← acceptKeyword .if_ then
        let condition ← parenthesized "else-if condition"
        let body ← braced block
        return ofBlock (.branch condition) t.line body :: (← readElse block k)
      else return [ofBlock .otherwise t.line (← braced block)]) ts us ok) :
    Reads text (readElse block (k + 1)) (t :: ts) us ok := by
  obtain ⟨l, line, start, stop⟩ := t
  cases ht
  exact fun passed => h (_ :: passed)

/-- A branch: what stands between its parentheses, and its block. -/
theorem reads_branch {s : Statement} {n : Nat} (h : Rereads .branch s)
    (hs : Spelled text s.items ts) (hn : ts.length ≤ n) :
    ∃ condition line body t parens block, s = ofBlock (.branch condition) line body ∧
      ts = t :: (parens ++ block) ∧ t.lexeme = .keyword .if_ ∧
      (∀ us what, Reads text (parenthesized what) (parens ++ us) us (· = condition)) ∧
      ∀ us, Reads text (braced (readList n)) (block ++ us) us (SameAll body) := by
  obtain ⟨kind, line, body, rfl, hplace, hkind, hbody⟩ := h
  cases kind <;> first | (cases hplace; done) | skip
  rename_i condition
  rw [ofBlock, items_of_ne (by simp)] at hs
  obtain ⟨t, ts, rfl, ht, hs⟩ := hs.token rfl
  obtain ⟨parens, block, rfl, hparens, hblock⟩ := hs.space.append
  simp only [List.length_cons, List.length_append] at hn
  exact ⟨condition, line, body, t, parens, block, rfl, rfl, ht,
    fun us what => reads_parenthesized hparens what,
    fun us => reads_braced hbody hblock.space (by omega)⟩

theorem reads_readElse {further : List Statement} {last : Option Statement} {n k : Nat}
    (hfurther : ∀ s ∈ further, Rereads .branch s) (hlast : ∀ s ∈ last, Rereads .otherwise s)
    (hs : Spelled text (itemsOf [space, keyword .else_, space] (further ++ last.toList)) ts)
    (hus : NoElse us) (hn : ts.length ≤ n) (hk : ts.length ≤ k) :
    Reads text (readElse (readList n) k) (ts ++ us) us (SameAll (further ++ last.toList)) := by
  induction further generalizing ts k with
  | nil =>
    cases last with
    | none =>
      obtain rfl := (itemsOf_nil _ ▸ hs : Spelled text [] ts).eq_nil
      intro passed
      refine ⟨[], passed, readElse_eq_nil ?_ k, sameAll_nil⟩
      rw [Cursor.isAtKeyword, Cursor.head?, Cursor.ahead_skipWhile]
      cases h : (us.dropWhile Token.isLineEnd).head? with
      | none => rw [List.nil_append, h]; rfl
      | some t => rw [List.nil_append, h]; exact hus t h
    | some s =>
      obtain ⟨kind, line, body, rfl, hplace, -, hbody⟩ := hlast s rfl
      cases kind <;> first | (cases hplace; done) | skip
      rw [List.nil_append, Option.toList_some, itemsOf_cons, itemsOf_nil, List.append_nil] at hs
      obtain ⟨t, ts, rfl, ht, hs⟩ := hs.space.token rfl
      rw [List.length_cons] at hn hk
      obtain ⟨k, rfl⟩ : ∃ m, k = m + 1 := ⟨k - 1, by omega⟩
      refine reads_readElse_else ht ?_
      have hspelled : Spelled text (PrintItem.braced (itemsOf [feed] body)) ts := by
        have hitems : Spelled text (ofBlock .otherwise line body).items ts := hs.space
        rwa [ofBlock, items_of_ne (by simp)] at hitems
      have hbrace : (ts ++ us).head?.any (fun t => t.isKeyword .if_) = false := by
        obtain ⟨brace, ts, rfl, hbrace, -⟩ := hspelled.token rfl
        simp [Token.isKeyword, hbrace]
      refine (reads_acceptKeyword_not hbrace).bind fun found hfound => ?_
      subst hfound
      refine (reads_braced hbody hspelled (by omega)).bind fun body' hbody' => reads_pure ?_
      exact SameAll.cons (same_ofBlock hbody') sameAll_nil
  | cons s further ih =>
    obtain ⟨hone, hrest⟩ := List.forall_mem_cons.mp hfurther
    rw [List.cons_append, itemsOf_cons] at hs
    obtain ⟨first, ts, rfl, hfirst, hmore⟩ := hs.append
    obtain ⟨t, first, rfl, ht, hfirst⟩ := hfirst.space.token rfl
    simp only [List.length_cons, List.length_append] at hn hk
    obtain ⟨k, rfl⟩ : ∃ m, k = m + 1 := ⟨k - 1, by omega⟩
    obtain ⟨condition, line, body, word, parens, block, rfl, rfl, hword, hparens, hblock⟩ :=
      reads_branch (n := n) hone hfirst.space (by omega)
    simp only [List.cons_append, List.append_assoc]
    refine reads_readElse_else ht ?_
    refine (reads_acceptKeyword hword).bind fun found hfound => ?_
    subst hfound
    refine (hparens _ _).bind fun condition' hcondition => ?_
    subst hcondition
    refine (hblock _).bind fun body' hbody => ?_
    refine (ih hrest hmore (by omega) (by omega)).bind fun more' hmore' => reads_pure ?_
    exact SameAll.cons (same_ofBlock hbody) hmore'

theorem returns_conditional {line : Nat} {first : Statement} {further : List Statement}
    {last : Option Statement} (hfirst : Rereads .branch first)
    (hfurther : ∀ s ∈ further, Rereads .branch s) (hlast : ∀ s ∈ last, Rereads .otherwise s) :
    Returns (ofBlock .conditional line (first :: (further ++ last.toList))) where
  begins {text ts} hs := by
    rw [ofBlock, items_conditional] at hs
    obtain ⟨used, ts, rfl, hbranch, -⟩ := hs.append
    obtain ⟨condition, line, body, word, parens, block, rfl, rfl, hword, -⟩ :=
      reads_branch (n := used.length) hfirst hbranch (Nat.le_refl _)
    exact ⟨word, _, rfl, begins_of_keyword hword (by decide)⟩
  reads {text ts us n} hs hus helse hn token := by
    rw [ofBlock, items_conditional] at hs
    obtain ⟨used, ts, rfl, hbranch, hmore⟩ := hs.append
    rw [List.length_append] at hn
    obtain ⟨condition, line, body, word, parens, block, rfl, rfl, hword, hparens, hblock⟩ :=
      reads_branch (n := n) hfirst hbranch (by omega)
    simp only [List.cons_append, List.append_assoc]
    refine reads_afterKeyword token hword rfl ?_ hus
    unfold readConditional
    refine (hparens _ _).bind fun condition' hcondition => ?_
    subst hcondition
    refine (hblock _).bind fun body' hbody => reads_get fun passed => ?_
    have hlen : ts.length ≤ (ts ++ us).length := List.length_append ▸ Nat.le_add_right _ _
    refine (reads_readElse hfurther hlast hmore helse (by omega) hlen).bind
      fun more' hmore' => reads_pure ?_
    exact same_ofBlock (SameAll.cons (same_ofBlock hbody) hmore')

/-- The arms of a switch, or the end of them, stop the arm before. -/
theorem cons_of_arms {arms : List Statement} (harms : ∀ s ∈ arms, Rereads .arm s)
    (hs : Spelled text (itemsOf [feed] arms ++ [feed, .mark .closeBrace]) ts) :
    ∃ f t rest, ts = f :: t :: rest ∧ f.isLineEnd = true ∧
      Terminator.nextArm.stopsAt t = true := by
  cases arms with
  | nil =>
    rw [itemsOf_nil] at hs
    obtain ⟨f, ts, rfl, hf, hs⟩ := hs.token rfl
    obtain ⟨t, ts, rfl, ht, -⟩ := hs.token rfl
    exact ⟨f, t, ts, rfl, isLineEnd_of_lexeme hf, by simp [Terminator.stopsAt, Token.isPunct, ht]⟩
  | cons s arms =>
    obtain ⟨kind, line, body, rfl, hplace, -⟩ := harms s List.mem_cons_self
    rw [itemsOf_cons, List.append_assoc] at hs
    obtain ⟨first, more, rfl, hfirst, -⟩ := hs.append
    obtain ⟨f, first, rfl, hf, hfirst⟩ := hfirst.token rfl
    have hitems : Spelled text (ofBlock kind line body).items first := hfirst
    cases kind <;> first | (cases hplace; done) | skip
    all_goals
      rw [ofBlock, items_of_ne (by simp)] at hitems
      obtain ⟨t, first, rfl, ht, -⟩ := hitems.token rfl
      exact ⟨f, t, _, rfl, isLineEnd_of_lexeme hf,
        by simp [Terminator.stopsAt, Token.isKeyword, ht]⟩

/-- An arm before what stops it. -/
theorem reads_readArms_cons {kind : Kind} {line n k : Nat} {body arms : List Statement}
    {gap rest : List Token} {f : Token} (hplace : kind.place = .arm) (hkind : kind.Printable)
    (hbody : ∀ s ∈ body, Returns s) (hs : Spelled text (ofBlock kind line body).items ts)
    (hgap : ∀ t ∈ gap, t.isLineEnd = true) (hf : f.isLineEnd = true)
    (hrest : Closes .nextArm rest) (hn : ts.length ≤ n)
    (hmore : Reads text (readArms (readList n) k) rest us (SameAll arms)) :
    Reads text (readArms (readList n) (k + 1)) (gap ++ (ts ++ f :: rest)) us
      (SameAll (ofBlock kind line body :: arms)) := by
  unfold readArms
  cases kind <;> first | (cases hplace; done) | skip
  case case_ value =>
    rw [ofBlock, items_of_ne (by simp)] at hs
    obtain ⟨word, ts, rfl, hword, hs⟩ := hs.token rfl
    obtain ⟨used, ts, rfl, hspells, hs⟩ := hs.space.uncons
    obtain ⟨colon, ts, rfl, hcolon, hblock⟩ := hs.token rfl
    simp only [List.length_cons, List.length_append] at hn
    simp only [List.cons_append, List.append_assoc]
    refine (reads_skipWhile hgap ?_).bind fun _ _ => ?_
    · simp [Token.isLineEnd, hword, Lexeme.isLineEnd]
    refine (reads_accept_not ?_).bind fun found hfound => ?_
    · simp [Token.isPunct, hword]
    subst hfound
    refine reads_line.bind fun line' _ => ?_
    refine (reads_acceptKeyword hword).bind fun found hfound => ?_
    subst hfound
    refine (reads_expression (fun _ _ h => isPunct_alike h _) hkind hspells ?_ _).bind
      fun value' hvalue => ?_
    · simp [Token.isPunct, hcolon]
    subst hvalue
    refine (reads_mark hcolon _).bind fun _ _ => ?_
    refine (reads_readList hbody hblock hf hrest (by omega)).bind fun body' hbody' => ?_
    exact hmore.bind fun arms' harms' => reads_pure (SameAll.cons (same_ofBlock hbody') harms')
  case fallback =>
    rw [ofBlock, items_of_ne (by simp)] at hs
    obtain ⟨word, ts, rfl, hword, hs⟩ := hs.token rfl
    obtain ⟨colon, ts, rfl, hcolon, hblock⟩ := hs.token rfl
    simp only [List.length_cons] at hn
    simp only [List.cons_append]
    refine (reads_skipWhile hgap ?_).bind fun _ _ => ?_
    · simp [Token.isLineEnd, hword, Lexeme.isLineEnd]
    refine (reads_accept_not ?_).bind fun found hfound => ?_
    · simp [Token.isPunct, hword]
    subst hfound
    refine reads_line.bind fun line' _ => ?_
    refine (reads_acceptKeyword_not ?_).bind fun found hfound => ?_
    · simp [Token.isKeyword, hword]
    subst hfound
    refine (reads_acceptKeyword hword).bind fun found hfound => ?_
    subst hfound
    refine (reads_mark hcolon _).bind fun _ _ => ?_
    refine (reads_readList hbody hblock hf hrest (by omega)).bind fun body' hbody' => ?_
    exact hmore.bind fun arms' harms' => reads_pure (SameAll.cons (same_ofBlock hbody') harms')

theorem reads_readArms {arms : List Statement} {n k : Nat} {gap : List Token} {f : Token}
    (harms : ∀ s ∈ arms, Rereads .arm s)
    (hs : Spelled text (itemsOf [feed] arms ++ [feed, .mark .closeBrace]) (f :: ts))
    (hgap : ∀ t ∈ gap, t.isLineEnd = true) (hn : ts.length ≤ n) (hk : ts.length ≤ k) :
    Reads text (readArms (readList n) k) (gap ++ (ts ++ us)) us (SameAll arms) := by
  induction arms generalizing ts k gap f with
  | nil =>
    rw [itemsOf_nil] at hs
    obtain ⟨g, ts', hrow, -, hs⟩ := hs.token rfl
    obtain ⟨-, rfl⟩ := List.cons.inj hrow
    obtain ⟨brace, ts, rfl, hbrace, hs⟩ := hs.token rfl
    obtain rfl := hs.eq_nil
    obtain ⟨k, rfl⟩ : ∃ m, k = m + 1 := ⟨k - 1, by simp at hk; omega⟩
    unfold readArms
    refine (reads_skipWhile hgap ?_).bind fun _ _ => ?_
    · simp [Token.isLineEnd, hbrace, Lexeme.isLineEnd]
    refine (reads_accept hbrace).bind fun found hfound => ?_
    subst hfound
    exact reads_pure sameAll_nil
  | cons s arms ih =>
    obtain ⟨hone, hrest⟩ := List.forall_mem_cons.mp harms
    obtain ⟨kind, line, body, rfl, hplace, hkind, hbody⟩ := hone
    rw [itemsOf_cons, List.append_assoc] at hs
    obtain ⟨first, more, hrow, hfirst, hmore⟩ := hs.append
    obtain ⟨g, first, rfl, -, hfirst⟩ := hfirst.token rfl
    rw [List.cons_append] at hrow
    obtain ⟨-, rfl⟩ := List.cons.inj hrow
    obtain ⟨f', t', ts', rfl, hf', ht'⟩ := cons_of_arms hrest hmore
    have hclose : Closes .nextArm (t' :: ts' ++ us) := closes_cons ht' _
    simp only [List.length_append, List.length_cons] at hn hk
    obtain ⟨k, rfl⟩ : ∃ m, k = m + 1 := ⟨k - 1, by omega⟩
    have hnext : Reads text (readArms (readList n) k) (t' :: ts' ++ us) us (SameAll arms) :=
      ih hrest hmore (List.forall_mem_nil _) (by rw [List.length_cons]; omega)
        (by rw [List.length_cons]; omega)
    rw [List.append_assoc]
    exact reads_readArms_cons hplace hkind hbody hfirst hgap hf' hclose (by omega) hnext

/-- A statement on a line. -/
theorem returns_onLine {kind : Kind} {line : Nat} (h : kind.OnLine) :
    Returns (ofLine kind line) := by
  have hne : kind ≠ .conditional := by
    rintro rfl
    cases h.shape
  have hitems : (ofLine kind line).items = kind.items [] := by
    rw [ofLine, items_of_ne hne, itemsOf_nil]
  refine ⟨fun hs => ?_, fun hs hus _ _ token => ?_⟩
  · rw [hitems] at hs
    exact begins_of_items (by cases kind <;> first | rfl | cases h.shape) hne hs
  · rw [hitems] at hs
    exact reads_onLine h hs hus token line

/-! ## Rules for statements with a block -/

theorem reads_readSwitch {subject : SourceExpr} {arms : List Statement} {line line' n : Nat}
    (harms : ∀ s ∈ arms, Rereads .arm s)
    (hs : Spelled text (space :: (PrintItem.parenthesized subject ++ space ::
      PrintItem.braced (itemsOf [feed] arms))) ts)
    (hn : ts.length ≤ n) : Reads text (readSwitch (readList n) line') (ts ++ us) us
      (Same (ofBlock (.switch subject) line arms)) := by
  obtain ⟨parens, block, rfl, hparens, hs⟩ := hs.space.append
  obtain ⟨brace, block, rfl, hbrace, hblock⟩ := hs.space.token rfl
  obtain ⟨f, t, rest, rfl, hf, -⟩ := cons_of_arms harms hblock
  simp only [List.length_cons, List.length_append] at hn
  simp only [List.cons_append, List.append_assoc]
  unfold readSwitch
  refine (reads_parenthesized hparens _).bind fun subject' hsubject => ?_
  subst hsubject
  refine (reads_mark hbrace _).bind fun _ _ => reads_get fun passed => ?_
  have hread (k : Nat) (hk : (t :: rest).length ≤ k) :
      Reads text (readArms (readList n) k) ([f] ++ (t :: rest ++ us)) us (SameAll arms) :=
    reads_readArms harms hblock (List.forall_mem_singleton.mpr hf)
      (by rw [List.length_cons]; omega) hk
  refine (hread _ ?_).bind fun arms' harms' => reads_pure (same_ofBlock harms')
  simp only [List.length_append, List.length_cons]
  omega

theorem reads_readFor {variable_ : String} {iterable : Iterable} {body : List Statement}
    {line line' n : Nat} (hiterable : iterable.Printable) (hbody : ∀ s ∈ body, Returns s)
    (hs : Spelled text (space :: .name variable_ :: space :: PrintItem.keyword .in_ :: space ::
      (iterable.items ++ space :: PrintItem.braced (itemsOf [feed] body))) ts)
    (hn : ts.length ≤ n) : Reads text (readFor (readList n) line') (ts ++ us) us
      (Same (ofBlock (.forLoop variable_ iterable) line body)) := by
  obtain ⟨name, ts, rfl, hname, hs⟩ := hs.space.token rfl
  obtain ⟨in_, ts, rfl, hin, hs⟩ := hs.space.token rfl
  obtain ⟨walked, block, rfl, hwalked, hblock⟩ := hs.space.append
  simp only [List.length_cons, List.length_append] at hn
  have hends : (block ++ us).head?.all (fun t => t.endsExpression || false) = true := by
    obtain ⟨brace, block, rfl, hbrace, -⟩ := hblock.space.token rfl
    simp [endsExpression, Token.isPunct, hbrace]
  have hread : Reads text (braced (readList n)) (block ++ us) us (SameAll body) :=
    reads_braced hbody hblock.space (by omega)
  simp only [List.cons_append, List.append_assoc]
  unfold readFor
  refine (reads_name hname _).bind fun name' hname => (reads_keyword hin).bind fun _ _ => ?_
  refine (reads_readIterable hiterable hwalked hends).bind fun iterable' hiterable => ?_
  subst hname hiterable
  exact hread.bind fun body' hbody' => reads_pure (same_ofBlock hbody')

theorem reads_readWhile {condition : SourceExpr} {body : List Statement} {line line' n : Nat}
    (hbody : ∀ s ∈ body, Returns s)
    (hs : Spelled text (space :: (PrintItem.parenthesized condition ++ space ::
      PrintItem.braced (itemsOf [feed] body))) ts)
    (hn : ts.length ≤ n) : Reads text (readWhile (readList n) line') (ts ++ us) us
      (Same (ofBlock (.whileLoop condition) line body)) := by
  obtain ⟨parens, block, rfl, hparens, hblock⟩ := hs.space.append
  rw [List.length_append] at hn
  have hread : Reads text (braced (readList n)) (block ++ us) us (SameAll body) :=
    reads_braced hbody hblock.space (by omega)
  rw [List.append_assoc]
  unfold readWhile
  refine (reads_parenthesized hparens _).bind fun condition' hcondition => ?_
  subst hcondition
  exact hread.bind fun body' hbody' => reads_pure (same_ofBlock hbody')

theorem reads_readFunction {defined : String} {params : List String} {body : List Statement}
    {line line' n : Nat} (hparams : params.Nodup) (hbody : ∀ s ∈ body, Returns s)
    (hs : Spelled text (space :: .name defined :: .mark .openParen ::
      (closed (params.map .name) ++ space :: PrintItem.braced (itemsOf [feed] body))) ts)
    (hn : ts.length ≤ n) : Reads text (readFunction (readList n) line') (ts ++ us) us
      (Same (ofBlock (.function defined params) line body)) := by
  obtain ⟨name, ts, rfl, hname, hs⟩ := hs.space.token rfl
  obtain ⟨paren, ts, rfl, hparen, hs⟩ := hs.token rfl
  obtain ⟨parens, block, rfl, hparens, hblock⟩ := hs.append
  simp only [List.length_cons, List.length_append] at hn
  have hread : Reads text (braced (readList n)) (block ++ us) us (SameAll body) :=
    reads_braced hbody hblock.space (by omega)
  simp only [List.cons_append, List.append_assoc]
  unfold readFunction
  refine (reads_name hname _).bind fun name' hname => (reads_mark hparen _).bind fun _ _ => ?_
  subst hname
  exact reads_parameters hparams hparens
    (hread.bind fun body' hbody' => reads_pure (same_ofBlock hbody'))

/-- A loop, a function or a switch. -/
theorem returns_block {kind : Kind} {line : Nat} {children : List Statement}
    (hplace : kind.place = .body) (hshape : kind.shape = .block) (hne : kind ≠ .conditional)
    (hkind : kind.Printable) (hchildren : ∀ s ∈ children, Rereads kind.within s) :
    Returns (ofBlock kind line children) := by
  have hitems : (ofBlock kind line children).items = kind.items (itemsOf [feed] children) := by
    rw [ofBlock, items_of_ne hne]
  refine ⟨fun hs => begins_of_items hplace hne (hitems ▸ hs), ?_⟩
  intro text ts us n hs hus _ hn token
  rw [hitems] at hs
  cases kind <;>
    first | (cases hshape; done) | (cases hplace; done) | (exact absurd rfl hne) | skip
  all_goals
    obtain ⟨word, ts, rfl, hword, hs⟩ := hs.token rfl
    have hn := Nat.le_of_succ_le hn
  case switch subject =>
    exact reads_afterKeyword token hword rfl (reads_readSwitch hchildren hs hn) hus
  case forLoop variable_ iterable =>
    exact reads_afterKeyword token hword rfl (reads_readFor hkind.2 hchildren hs hn) hus
  case whileLoop condition =>
    exact reads_afterKeyword token hword rfl (reads_readWhile hchildren hs hn) hus
  case function defined params =>
    exact reads_afterKeyword token hword rfl (reads_readFunction hkind.2.1 hchildren hs hn) hus

theorem Printable.rereads {place : Place} {s : Statement} (h : Printable place s) :
    Rereads place s := by
  induction h with
  | line h => exact returns_onLine h
  | @block place kind line children hplace hshape hne hkind _ ih =>
    subst hplace
    cases hp : kind.place with
    | body => exact returns_block hp hshape hne hkind ih
    | _ =>
      have hwithin : kind.within = .body := by
        cases kind <;> first | rfl | cases hp
      rw [hwithin] at ih
      exact ⟨kind, line, children, rfl, hp, hkind, ih⟩
  | conditional _ _ _ hfirst hfurther hlast => exact returns_conditional hfirst hfurther hlast

/-! ## Whole scripts -/

theorem valid_script {ss : List Statement} (h : ∀ s ∈ ss, Printable .body s) :
    AllValid (script ss) := by
  have hfeed : AllValid [feed] := .cons trivial allValid_nil
  cases ss with
  | nil => exact allValid_nil
  | cons s ss =>
    obtain ⟨hs, hss⟩ := List.forall_mem_cons.mp h
    exact (hs.valid_items.append (valid_itemsOf hfeed fun s hs => (hss s hs).valid_items)).append
      hfeed

theorem reads_script {ss : List Statement} (h : ∀ s ∈ ss, Returns s)
    (hs : Spelled text (script ss) ts) :
    Reads text (readList (ts.length + 1) .endOfText) ts [] (SameAll ss) := by
  have hend : Closes .endOfText [] := ⟨fun _ => rfl, fun t ht => by cases ht⟩
  have hgap : ∀ t ∈ ([] : List Token), t.isLineEnd = true := List.forall_mem_nil _
  cases ss with
  | nil =>
    obtain rfl := hs.eq_nil
    exact reads_readList_nil hgap hend
  | cons s ss =>
    obtain ⟨hone, hss⟩ := List.forall_mem_cons.mp h
    obtain ⟨row, last, rfl, hitems, hlast⟩ := hs.append
    obtain ⟨f, last, rfl, hf, hlast⟩ := hlast.token rfl
    obtain rfl := hlast.eq_nil
    obtain ⟨ts₁, ts₂, rfl, h₁, h₂⟩ := hitems.append
    have hf := isLineEnd_of_lexeme hf
    have hlen : ts₁.length + ts₂.length ≤ (ts₁ ++ ts₂ ++ [f]).length := by
      rw [List.length_append, List.length_append]
      exact Nat.le_add_right _ _
    have hread := reads_statements hone hss h₁ h₂ hgap hf hend hlen
    rwa [List.nil_append, ← List.append_assoc] at hread

/-- Every script is printed as a text that is read as the same statements, on other lines. -/
theorem ofSource_print {source : String} {nodes : List Statement}
    (h : ofSource source = .ok nodes) : ∃ nodes', ofSource (print nodes) = .ok nodes' ∧
      View.withoutLines.statements nodes' = View.withoutLines.statements nodes := by
  have hprintable := printable_of_ofSource h
  have htext : (print nodes).toList = (script nodes).flatMap chars := String.toList_ofList
  obtain ⟨ts, hcheck, hscan, hspelled⟩ := exists_tokens_of_items (valid_script hprintable)
    (fits_script nodes) (nests_script nodes)
  rw [← htext] at hcheck hscan hspelled
  obtain ⟨nodes', passed, hnodes, hsame⟩ :=
    reads_script (fun s hs => (hprintable s hs).rereads) hspelled []
  exact ⟨nodes', ofSource_eq_ok_iff.mpr ⟨ts, _, hcheck, hscan, hnodes⟩, hsame⟩

theorem ofSource_print_conditional :
    let source := "if (a // b\n) \x7b x = f(1) \x7d\nelse \x7b task t \x7b k: g(2) \x7d \x7d"
    let nodes := [
      ofBlock .conditional 1 [
        ofBlock (.branch ⟨"a // b"⟩) 1 [
          ofLine (.assign "x" (.invoke ⟨"f", [⟨"1"⟩]⟩ ⟨"f(1)"⟩)) 2],
        ofBlock .otherwise 3 [ofLine (.taskBlock "t" [⟨"k", ⟨"g", [⟨"2"⟩]⟩, 3⟩]) 3]]]
    ofSource source = .ok nodes ∧ ∃ nodes', ofSource (print nodes) = .ok nodes' ∧
      View.withoutLines.statements nodes' = View.withoutLines.statements nodes := by
  intro source nodes
  have hnodes : ofSource source = .ok nodes := by cbv
  exact ⟨hnodes, ofSource_print hnodes⟩

end Statement

end PipelineScript
