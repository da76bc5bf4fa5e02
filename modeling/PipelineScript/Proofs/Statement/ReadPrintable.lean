import Mathlib
import PipelineScript.Proofs.Statement.Arguments
import PipelineScript.Proofs.Statement.Concatenation
import PipelineScript.Proofs.Statement.Printable
import PipelineScript.Proofs.Statement.Slices

/-! # What is read can be printed

The names in a tree that was read are names, its expressions are expressions on their own, and its
statements stand where they can be read again (`Statement.printable_of_ofSource`). Whether a value
is a bare call depends on where its statement ends, so the rules of a line are looked at up to
there (`Reading.Finishes`). -/

namespace PipelineScript

open Token

namespace Reading

variable {α β : Type} {text : List Char} {code : List Token} {c : Cursor}

/-- The tokens, without comments, of a text. -/
def Coded (text : List Char) (code : List Token) : Prop :=
  ∃ ts, Token.ofSource (String.ofList text) = .ok ts ∧ code = uncommented ts

theorem coded_of_owns {e : SourceExpr} {own : List Token} (h : e.Owns own) :
    Coded e.source.toList (uncommented own) :=
  ⟨own, by rw [String.ofList_toList]; exact h.tokens, rfl⟩

namespace Coded

variable (h : Coded text code)
include h

theorem balanced : Balanced code := by
  obtain ⟨ts, hts, rfl⟩ := h
  obtain ⟨hcheck, hscan⟩ := ofSource_eq_ok.mp hts
  exact balanced_of_check hcheck hscan

theorem isName {t : Token} {s : String} (ht : t ∈ code) (hs : t.lexeme = .ident s) : IsName s := by
  obtain ⟨ts, hts, rfl⟩ := h
  exact isName_of_scan (ofSource_eq_ok.mp hts).2 t (List.mem_filter.mp ht).1 s hs

/-- The text of balanced tokens is quoted where these stand. -/
theorem quotes {used : List Token} {e : SourceExpr} (hrow : used <:+: code)
    (hbalanced : Balanced used) (he : Cursor.sourceOf? text used = some e)
    (hfirst : ∀ t ∈ used.head?, t.isLineEnd = false)
    (hlast : ∀ t ∈ used.getLast?, t.isLineEnd = false) :
    ∃ own, Quotes text e own used ∧ e.Owns own := by
  obtain ⟨ts, hts, rfl⟩ := h
  have hscan := (ofSource_eq_ok.mp hts).2
  rw [String.toList_ofList] at hscan
  obtain ⟨own, hquotes, hend⟩ := quotes_of_sourceOf? hscan hrow hbalanced he hfirst hlast
  exact ⟨own, hquotes, hquotes.tokens, hend⟩

theorem fills {used : List Token} {e : SourceExpr} {stop : Token → Bool}
    (hstop : ∀ t t' : Token, t.lexeme.Alike t'.lexeme → stop t' = stop t) (hrow : used <:+: code)
    (hencl : Encloses [] used) (hlen : expressionLength stop 0 used = used.length)
    (he : Cursor.sourceOf? text used = some e) :
    ∃ own, Quotes text e own used ∧ e.Fills stop own := by
  obtain ⟨own, hquotes, howns⟩ :=
    h.quotes hrow hencl.nest he hencl.isLineEnd_head? hencl.isLineEnd_getLast?
  refine ⟨own, hquotes, howns, ?_, ?_⟩
  · rw [← hquotes.sourceOf?, he]
  · rw [← hquotes.expressionLength hstop, hlen, hquotes.length_eq]

theorem enclosed {e : SourceExpr} (he : IsCut text code e) : e.Enclosed := by
  obtain ⟨ts, hts, rfl⟩ := h
  refine ⟨exists_ofSource_of_cut hts (by rwa [String.toList_ofList]), ?_⟩
  obtain ⟨range, -, -, hslice⟩ := he
  unfold Cursor.sourceOf? at hslice
  split at hslice
  · cases hslice
    rw [String.toList_ofList]
    exact Text.trimmed_trim _
  · cases hslice

end Coded

section

variable (hcoded : Coded text code)
include hcoded

/-! ## Names and expressions -/

theorem yields_name (what : String) : Yields text code (name what) IsName := by
  intro c hc s c' hr
  obtain ⟨used, hp, t, rfl, ht⟩ := takes_name what s c' hr
  refine ⟨_, hp, hcoded.isName (hc.suffix.subset ?_) ht⟩
  rw [hp.ahead]
  exact List.mem_cons_self

theorem yields_dottedName (what : String) : Yields text code (dottedName what) fun parts =>
    IsPath (".".intercalate parts) ∧ IsName (parts.getLast?.getD "") := by
  intro c hc parts c' hr
  obtain ⟨used, hp, -, hne, hparts⟩ := takes_dottedName what parts c' hr
  have hnames : ∀ s ∈ parts, IsName s := by
    intro s hs
    obtain ⟨t, ht, hl⟩ := hparts s hs
    refine hcoded.isName (hc.suffix.subset ?_) hl
    rw [hp.ahead]
    exact List.mem_append_left _ ht
  refine ⟨used, hp, ?_, ?_⟩
  · obtain ⟨first, more, rfl⟩ := List.exists_cons_of_ne_nil hne
    exact ⟨first, more, rfl, List.forall_mem_cons.mp hnames⟩
  · rw [List.getLast?_eq_some_getLast hne]
    exact hnames _ (List.getLast_mem hne)

theorem takes_fills {stop : Token → Bool}
    (hstop : ∀ t t' : Token, t.lexeme.Alike t'.lexeme → stop t' = stop t)
    (hc : Within text code c) (what : String) : Takes (expression stop what) c fun e used =>
      ∃ own, Quotes text e own used ∧ e.Fills stop own := by
  unfold expression
  refine (takes_expressionTokens hcoded.balanced hc stop).bind fun tokens used c' hp h => ?_
  obtain ⟨rfl, hrow, hencl, hlen⟩ := h
  refine (takes_sourceOf tokens _).mono fun e more he => ?_
  obtain ⟨rfl, hslice⟩ := he
  rw [(hc.passes hp).source] at hslice
  rw [List.append_nil]
  exact hcoded.fills hstop hrow hencl hlen hslice

theorem yields_before {stop : Token → Bool}
    (hstop : ∀ t t' : Token, t.lexeme.Alike t'.lexeme → stop t' = stop t) (what : String) :
    Yields text code (expression stop what) (SourceExpr.Before stop) := fun _ hc =>
  (takes_fills hcoded hstop hc what).mono fun _ _ h => h.imp fun _ hown => hown.2

theorem yields_restOfStatement (what : String) :
    Yields text code (restOfStatement what) SourceExpr.OnLine :=
  yields_before hcoded (fun _ _ _ => rfl) what

theorem yields_parenthesized (what : String) :
    Yields text code (parenthesized what) SourceExpr.Enclosed := fun _ hc =>
  (takes_parenthesized hcoded.balanced hc what).mono fun _ _ h => hcoded.enclosed h

/-! ## Invocations -/

theorem yields_arguments (n : Nat) : Yields text code (arguments n) fun args =>
    ∀ e ∈ args, e.Before fun t => t.isPunct .comma := by
  have hstop : ∀ t t' : Token, t.lexeme.Alike t'.lexeme → t'.isPunct .comma = t.isPunct .comma :=
    fun _ _ h => isPunct_alike h _
  induction n with
  | zero => exact yields_fail _
  | succ n ih =>
    unfold arguments
    refine (yields_before hcoded hstop _).bind fun e he => ?_
    refine (yields_of_takes fun _ => takes_accept _).bind fun found _ => ?_
    split
    · exact ih.bind fun args hargs => yields_pure (List.forall_mem_cons.mpr ⟨he, hargs⟩)
    · refine (yields_of_takes fun _ => takes_mark _ _).bind fun _ _ => yields_pure ?_
      exact List.forall_mem_singleton.mpr he

theorem yields_invocation : Yields text code invocation Invocation.Printable := by
  unfold invocation
  refine (yields_dottedName hcoded _).bind fun parts hparts => ?_
  refine (yields_of_takes fun _ => takes_mark _ _).bind fun _ _ => ?_
  refine (yields_of_takes fun _ => takes_accept _).bind fun found _ => ?_
  split
  · exact yields_pure ⟨hparts.1, List.forall_mem_nil _⟩
  · exact yields_get fun c => (yields_arguments hcoded _).bind fun args hargs =>
      yields_pure ⟨hparts.1, hargs⟩

/-- Before a parenthesis a name has no further parts. -/
theorem isName_of_isAtInvocation (hc : Within text code c) (h : c.isAtInvocation = true)
    {call : Invocation} {c' : Cursor} (hr : invocation c = .ok (call, c')) : IsName call.name := by
  obtain ⟨t, p, inner, q, pieces, hpass, ht, -⟩ := takes_bareInvocation hcoded.balanced hc h hr
  refine hcoded.isName (hc.suffix.subset ?_) ht
  rw [hpass.ahead]
  exact List.mem_cons_self

end

/-! ## Rules that end with their statement -/

/-- Whenever the reading succeeds at the cursor and a statement ends there, it gives such a
result. -/
def Finishes (r : Reading α) (c : Cursor) (ok : α → Prop) : Prop :=
  ∀ a c', r c = .ok (a, c') → (∃ used, c.Passes used c') ∧ (c'.isAtStatementEnd = true → ok a)

variable {r : Reading α} {post : α → List Token → Prop} {ok : α → Prop} {done : β → Prop}

theorem Takes.finishes (h : Takes r c post) (hok : ∀ a used, post a used → ok a) :
    Finishes r c ok := by
  intro a c' hr
  obtain ⟨used, hp, ha⟩ := h a c' hr
  exact ⟨⟨used, hp⟩, fun _ => hok a used ha⟩

theorem Takes.bind_finishes {f : α → Reading β} (h : Takes r c post)
    (hf : ∀ a used c', c.Passes used c' → post a used → Finishes (f a) c' done) :
    Finishes (r >>= f) c done := by
  intro b c'' hr
  obtain ⟨a, c', ha, hb⟩ := bind_eq_ok.mp hr
  obtain ⟨used, hp, hpost⟩ := h a c' ha
  obtain ⟨⟨more, hp'⟩, hdone⟩ := hf a used c' hp hpost b c'' hb
  exact ⟨⟨used ++ more, hp.trans hp'⟩, hdone⟩

theorem Finishes.bind_pure {f : α → β} (h : Finishes r c ok) (hf : ∀ a, ok a → done (f a)) :
    Finishes (r >>= fun a => pure (f a)) c done := by
  intro b c'' hr
  obtain ⟨a, c', ha, hb⟩ := bind_eq_ok.mp hr
  obtain ⟨hp, hok⟩ := h a c' ha
  cases hb
  exact ⟨hp, fun hend => hf a (hok hend)⟩

theorem Finishes.map {f : α → β} (h : Finishes r c ok) (hf : ∀ a, ok a → done (f a)) :
    Finishes (f <$> r) c done := by
  rw [map_eq_pure_bind]
  exact h.bind_pure hf

theorem finishes_join {p : Prop} [Decidable p] {r' : Reading α} {f : α → Reading β}
    (h : Takes r c post) (h' : Takes r' c post)
    (hf : ∀ a used c', c.Passes used c' → post a used → Finishes (f a) c' done) :
    Finishes (if p then r >>= f else r' >>= f) c done := by
  split
  · exact h.bind_finishes hf
  · exact h'.bind_finishes hf

/-- A keyword is read over, or the reading goes on where it stood. -/
theorem finishes_acceptKeyword {k : Keyword} {f : Bool → Reading β}
    (hyes : ∀ used c', c.Passes used c' → Finishes (f true) c' done)
    (hno : c.isAtKeyword k = false → Finishes (f false) c done) :
    Finishes (acceptKeyword k >>= f) c done := by
  cases hk : c.isAtKeyword k with
  | true =>
    intro b c'' hr
    obtain ⟨found, c', hfound, hb⟩ := bind_eq_ok.mp hr
    obtain ⟨used, hp, -⟩ := takes_acceptKeyword k found c' hfound
    rw [Twin.acceptKeyword_eq, if_pos hk] at hfound
    cases hfound
    obtain ⟨⟨more, hp'⟩, hdone⟩ := hyes used _ hp b c'' hb
    exact ⟨⟨used ++ more, hp.trans hp'⟩, hdone⟩
  | false =>
    intro b c'' hr
    obtain ⟨found, c', hfound, hb⟩ := bind_eq_ok.mp hr
    rw [Twin.acceptKeyword_eq, hk, if_neg (by simp)] at hfound
    cases hfound
    exact hno hk b c'' hb

theorem finishes_pure {a : α} (h : ok a) : Finishes (pure a) c ok :=
  Takes.finishes (takes_pure h) fun _ _ h => h

theorem finishes_get {f : Cursor → Reading β} (h : Finishes (f c) c done) :
    Finishes (get >>= f) c done := h

/-- The end of the statement is where it has to be. -/
theorem Finishes.endOf (h : Finishes r c ok) (label : String) :
    Takes (do let a ← r; endOf label; return a) c fun a _ => ok a := by
  intro a c' hr
  obtain ⟨a₁, c₁, ha, hr⟩ := bind_eq_ok.mp hr
  obtain ⟨⟨used, hp⟩, hok⟩ := h a₁ c₁ ha
  obtain ⟨u, c₂, hend, hr⟩ := bind_eq_ok.mp hr
  have hcond : (if c₁.isAtStatementEnd = true then pure () else
    fail (.trailing ((c₁.head?.map Token.shown).getD "") label) : Reading Unit) c₁ =
      .ok (u, c₂) := hend
  cases hr
  split at hcond
  · rename_i hat
    cases hcond
    exact ⟨used, hp, hok hat⟩
  · cases hcond

end Reading

namespace Statement

open Reading

variable {text : List Char} {code : List Token} {c c' : Cursor}

theorem ended_of_isAtStatementEnd (h : c.isAtStatementEnd = true) :
    ∀ t ∈ c.ahead.head?, t.isLineEnd = true ∨ t.isPunct .closeBrace = true := by
  intro t ht
  unfold Cursor.isAtStatementEnd Cursor.head? at h
  rw [Option.mem_def.mp ht] at h
  simpa using h

section

variable (hcoded : Coded text code)
include hcoded

/-! ## Values -/

/-- A bare call is one on its own. -/
theorem printable_of_bareCall? (hc : Within text code c) {s : Source}
    (h : bareCall? c = some (s, c')) : s.Printable ∧ ∃ used, c.Passes used c' := by
  obtain ⟨hat, call, e, rfl, hcall, hend, he⟩ := bareCall?_eq_some_iff.mp h
  obtain ⟨used, hp, -, hused, last, hlast, hclose⟩ :=
    takes_invocation hcoded.balanced hc call c' hcall
  rw [hp.ahead, List.length_append, Nat.add_sub_cancel, List.take_left, hc.source] at he
  have hrow : used <:+: code :=
    (hp.ahead ▸ List.prefix_append used _).isInfix.trans hc.suffix.isInfix
  have hfirst : ∀ t ∈ used.head?, t.isLineEnd = false := by
    intro t ht
    have hhead : c.ahead.head? = some t := by
      rw [hp.ahead, List.head?_append, Option.mem_def.mp ht]
      rfl
    unfold Cursor.isAtInvocation at hat
    split at hat
    · rename_i hahead
      rw [hahead] at hhead
      cases hhead
      rfl
    · cases hat
  have hlast' : ∀ t ∈ used.getLast?, t.isLineEnd = false := by
    intro t ht
    obtain rfl : last = t := Option.some.inj (hlast.symm.trans ht)
    rw [Token.isLineEnd, hclose]
    rfl
  obtain ⟨own, hquotes, howns⟩ := hcoded.quotes hrow hused he hfirst hlast'
  have hfacing := hquotes.facing (ended_of_isAtStatementEnd hend) hc.source hp.ahead
  obtain ⟨-, hnone⟩ | ⟨s₁, s₂, c₁, c₂, hs₁, hs₂, hsame, hc₂, -⟩ := bareCall?_mirror hfacing
  · rw [hnone] at h
    cases h
  · rw [hs₂] at h
    cases h
    rw [View.source_withoutLines, View.source_withoutLines] at hsame
    refine ⟨⟨own, c₁, howns, by rw [hs₁, hsame], ?_⟩, used, hp⟩
    -- what is ahead in the text is the tail alone
    obtain ⟨ps, hrow₁, hrow₂, -⟩ := hc₂.row
    obtain rfl : ps = [] := by simpa using hrow₂
    exact hrow₁

theorem finishes_readSource (hc : Within text code c) :
    Finishes readSource c Source.Printable := by
  unfold readSource
  refine finishes_acceptKeyword (fun used c' hp => ?_) fun hrun => ?_
  · have hcall := yields_invocation hcoded c' (hc.passes hp)
    exact (hcall.finishes fun call _ h => h).bind_pure fun call h => h
  · refine finishes_get ?_
    split
    · rename_i source c' hcall
      obtain ⟨hsource, used, hp⟩ := printable_of_bareCall? hcoded hc hcall
      exact ((takes_set hp).bind fun _ _ _ _ _ => takes_pure hsource).finishes fun _ _ h => h
    · rename_i hnone
      intro s c' hr
      obtain ⟨e, c₁, he, hr⟩ := bind_eq_ok.mp hr
      obtain ⟨used, hp, own, hquotes, hfills⟩ :=
        takes_fills hcoded (fun _ _ _ => rfl) hc "a value" e c₁ he
      cases hr
      refine ⟨⟨used, hp⟩, fun hend => ⟨own, hfills, ?_, ?_⟩⟩
      all_goals
        have hfacing := hquotes.facing (ended_of_isAtStatementEnd hend) hc.source hp.ahead
      · rw [← hfacing.isAtKeyword, hrun]
      · obtain ⟨hown, -⟩ | ⟨s₁, s₂, c₁, c₂, -, hs₂, -⟩ := bareCall?_mirror hfacing
        · exact hown
        · cases hnone.symm.trans hs₂

/-! ## Statements on a line -/

theorem yields_readImport : Yields text code readImport Kind.OnLine := by
  unfold readImport
  refine (yields_dottedName hcoded _).bind fun path hpath => ?_
  refine (yields_of_takes fun _ => takes_acceptKeyword _).bind fun found _ => ?_
  refine .join (yields_name hcoded _) (yields_pure hpath.2) fun name hname => ?_
  exact yields_pure ⟨rfl, hpath.1, hname⟩

theorem finishes_readDeclare (hc : Within text code c) :
    Finishes readDeclare c Kind.OnLine := by
  unfold readDeclare
  refine (yields_name hcoded _ c hc).bind_finishes fun name _ c₁ hp₁ hname => ?_
  refine (takes_accept _).bind_finishes fun typed _ c₂ hp₂ _ => ?_
  have hc₂ := (hc.passes hp₁).passes hp₂
  have htype : Yields text code (some <$> dottedName "a type name") fun parts =>
      ∀ ss ∈ parts, IsPath (".".intercalate ss) := by
    refine (yields_dottedName hcoded _).map fun parts hparts ss hss => ?_
    cases hss
    exact hparts.1
  refine finishes_join (htype c₂ hc₂) (takes_pure fun ss hss => by cases hss)
    fun declaredType _ c₃ hp₃ htype => ?_
  refine (takes_accept _).bind_finishes fun stored _ c₄ hp₄ _ => ?_
  have hdeclared : ∀ s ∈ declaredType.map fun parts => ".".intercalate parts, IsPath s := by
    intro s hs
    obtain ⟨parts, hparts, rfl⟩ := Option.map_eq_some_iff.mp hs
    exact htype parts hparts
  have hline (value : Option Source) (hs : ∀ s ∈ value, s.Printable) :
      Kind.OnLine (.declare name (declaredType.map fun parts => ".".intercalate parts) value) :=
    ⟨rfl, hname, hdeclared, hs⟩
  split
  · have hvalue := finishes_readSource hcoded ((hc₂.passes hp₃).passes hp₄)
    refine (hvalue.map fun s hs s' hs' => ?_).bind_pure hline
    cases hs'
    exact hs
  · exact (finishes_pure fun s hs => by cases hs).bind_pure hline

theorem finishes_readAssign (hc : Within text code c) :
    Finishes readAssign c Kind.OnLine := by
  unfold readAssign
  refine (yields_name hcoded _ c hc).bind_finishes fun name _ c₁ hp₁ hname => ?_
  refine (takes_mark _ _).bind_finishes fun _ _ c₂ hp₂ _ => ?_
  have hvalue := finishes_readSource hcoded ((hc.passes hp₁).passes hp₂)
  exact hvalue.bind_pure fun value hs => ⟨rfl, hname, hs⟩

/-- The keys of the entries are new ones, each of them once. -/
theorem yields_readTaskEntries (n : Nat) (seen : List String) :
    Yields text code (readTaskEntries n seen) fun entries =>
      (entries.map TaskEntry.key).Nodup ∧ (∀ entry ∈ entries, entry.key ∉ seen) ∧
        ∀ entry ∈ entries, entry.call.Printable := by
  induction n generalizing seen with
  | zero => exact yields_fail _
  | succ n ih =>
    unfold readTaskEntries
    refine (yields_of_takes fun _ => takes_skipWhile _).bind fun _ _ => ?_
    refine (yields_of_takes fun _ => takes_accept _).bind fun closed _ => ?_
    split
    · exact yields_pure ⟨List.nodup_nil, List.forall_mem_nil _, List.forall_mem_nil _⟩
    · have hkey : Yields text code readTaskKey fun _ => True := by
        refine yields_get fun c => ?_
        split
        · exact (yields_of_takes fun _ => takes_advance _).bind fun _ _ => yields_pure trivial
        · exact (yields_of_takes fun _ => takes_advance _).bind fun _ _ => yields_pure trivial
        · exact yields_fail _
      refine yields_line.bind fun line _ => hkey.bind fun key _ => ?_
      refine yields_failIf _ fun hnew => ?_
      refine (yields_of_takes fun _ => takes_mark _ _).bind fun _ _ => ?_
      refine (yields_invocation hcoded).bind fun call hcall => yields_get fun c => ?_
      refine yields_failUnless _ fun _ => (ih _).bind fun entries hentries => yields_pure ?_
      obtain ⟨hnodup, hseen, hcalls⟩ := hentries
      have hkey : key ∉ entries.map TaskEntry.key := by
        intro hmem
        obtain ⟨entry, hentry, rfl⟩ := List.mem_map.mp hmem
        exact hseen entry hentry List.mem_cons_self
      refine ⟨List.nodup_cons.mpr ⟨hkey, hnodup⟩, List.forall_mem_cons.mpr ⟨?_, ?_⟩,
        List.forall_mem_cons.mpr ⟨hcall, hcalls⟩⟩
      · simpa using hnew
      · exact fun entry hentry hmem => hseen entry hentry (List.mem_cons_of_mem _ hmem)

theorem yields_readTaskBlock : Yields text code readTaskBlock Kind.OnLine := by
  unfold readTaskBlock
  refine (yields_name hcoded _).bind fun target htarget => ?_
  refine (yields_of_takes fun _ => takes_mark _ _).bind fun _ _ => yields_get fun c => ?_
  exact (yields_readTaskEntries hcoded _ _).bind fun tasks h =>
    yields_pure ⟨rfl, htarget, h.1, h.2.2⟩

theorem yields_readReturn : Yields text code readReturn Kind.OnLine := by
  unfold readReturn
  refine yields_get fun c => ?_
  split
  · exact yields_pure ⟨rfl, fun e he => by cases he⟩
  · refine (yields_restOfStatement hcoded _).bind fun value h => yields_pure ⟨rfl, fun e he => ?_⟩
    cases he
    exact h

/-! ## Parts of statements with a block -/

theorem yields_readIterable : Yields text code readIterable Iterable.Printable := by
  intro c hc
  unfold readIterable
  refine (takes_expressionTokens hcoded.balanced hc _).bind fun tokens used c' hp h => ?_
  obtain ⟨rfl, hrow, hencl, hlen⟩ := h
  have hsource := (hc.passes hp).source
  split
  · rename_i before inclusive after hsplit
    obtain ⟨⟨t, rfl⟩, hbefore, hnone, hafter⟩ :=
      encloses_splitRange? hencl rooted_nil hsplit
    refine (takes_sourceOf _ _).bind fun start _ c'' hp' hstart => ?_
    refine (takes_sourceOf _ _).bind fun stop _ _ _ hstop => takes_pure ?_
    rw [hsource] at hstart
    rw [hp'.source, hsource] at hstop
    obtain ⟨own, hquotes, hfills⟩ := hcoded.fills (fun _ _ _ => rfl)
      ((List.prefix_append _ _).isInfix.trans hrow) hbefore
      (hbefore.expressionLength_eq rooted_nil) hstart.2
    obtain ⟨own', -, hfills'⟩ := hcoded.fills (fun _ _ _ => rfl)
      (.trans ⟨before ++ [t], [], by simp⟩ hrow) hafter
      (hafter.expressionLength_eq rooted_nil) hstop.2
    exact ⟨⟨own, hfills, hquotes.splitRange?_eq_none_iff.mp hnone⟩, own', hfills'⟩
  · rename_i hnone
    refine (takes_sourceOf _ _).bind fun e _ _ _ he => takes_pure ?_
    rw [hsource] at he
    obtain ⟨own, hquotes, hfills⟩ := hcoded.fills (fun _ _ _ => rfl) hrow hencl hlen he.2
    exact ⟨own, hfills, hquotes.splitRange?_eq_none_iff.mp hnone⟩

/-- The parameters are new ones, each of them once. -/
theorem yields_readParameters (n : Nat) (seen : List String) :
    Yields text code (readParameters n seen) fun params =>
      params.Nodup ∧ (∀ p ∈ params, p ∉ seen) ∧ ∀ p ∈ params, IsName p := by
  induction n generalizing seen with
  | zero => exact yields_fail _
  | succ n ih =>
    unfold readParameters
    refine (yields_name hcoded _).bind fun param hparam => yields_failIf _ fun hnew => ?_
    have hnew : param ∉ seen := by simpa using hnew
    refine (yields_of_takes fun _ => takes_accept _).bind fun found _ => ?_
    split
    · refine (ih _).bind fun params hparams => yields_pure ?_
      obtain ⟨hnodup, hseen, hnames⟩ := hparams
      refine ⟨List.nodup_cons.mpr ⟨fun hmem => hseen _ hmem List.mem_cons_self, hnodup⟩,
        List.forall_mem_cons.mpr ⟨hnew, fun p hp hmem => ?_⟩,
        List.forall_mem_cons.mpr ⟨hparam, hnames⟩⟩
      exact hseen p hp (List.mem_cons_of_mem _ hmem)
    · refine (yields_of_takes fun _ => takes_mark _ _).bind fun _ _ => yields_pure ?_
      exact ⟨List.nodup_singleton _, List.forall_mem_singleton.mpr hnew,
        List.forall_mem_singleton.mpr hparam⟩

/-! ## Statements with a block -/

variable {block : Terminator → Reading (List Statement)}
  (hblock : ∀ terminator, Yields text code (block terminator) fun ss =>
    ∀ s ∈ ss, Printable .body s)
include hblock

omit hcoded in
theorem yields_braced : Yields text code (braced block) fun ss => ∀ s ∈ ss, Printable .body s := by
  unfold braced
  refine (yields_of_takes fun _ => takes_mark _ _).bind fun _ _ => (hblock _).bind fun body h => ?_
  exact (yields_of_takes fun _ => takes_mark _ _).bind fun _ _ => yields_pure h

/-- Further branches, and the one that takes what is left. -/
theorem yields_readElse (n : Nat) : Yields text code (readElse block n) fun ss =>
    ∃ (further : List Statement) (last : Option Statement), ss = further ++ last.toList ∧
      (∀ s ∈ further, Printable .branch s) ∧ ∀ s ∈ last, Printable .otherwise s := by
  induction n with
  | zero => exact yields_pure ⟨[], none, rfl, List.forall_mem_nil _, fun s hs => by cases hs⟩
  | succ n ih =>
    unfold readElse
    refine fun c hc => takes_get ?_
    dsimp only
    split
    · have hp : c.Passes _ ((c.skipWhile Token.isLineEnd).advance 1) :=
        (Cursor.Passes.advance c _).trans (.advance _ 1)
      refine (takes_set hp).bind fun _ _ c' hp' _ => ?_
      refine Yields.bind (yields_of_takes fun _ => takes_acceptKeyword _) (fun found _ => ?_) c'
        (hc.passes hp')
      split
      · refine (yields_parenthesized hcoded _).bind fun condition hcond => ?_
        refine (yields_braced hblock).bind fun body hbody => ih.bind fun more hmore => ?_
        obtain ⟨further, last, rfl, hfurther, hlast⟩ := hmore
        refine yields_pure ⟨_ :: further, last, rfl, List.forall_mem_cons.mpr ⟨?_, hfurther⟩, hlast⟩
        exact .block (.branch condition) rfl rfl (by simp) hcond hbody
      · refine (yields_braced hblock).bind fun body hbody => yields_pure ?_
        refine ⟨[], some _, rfl, List.forall_mem_nil _, fun s hs => ?_⟩
        cases hs
        exact .block .otherwise rfl rfl (by simp) trivial hbody
    · exact takes_pure ⟨[], none, rfl, List.forall_mem_nil _, fun s hs => by cases hs⟩

theorem yields_readConditional (line : Nat) :
    Yields text code (readConditional block line) (Printable .body) := by
  unfold readConditional
  refine (yields_parenthesized hcoded _).bind fun condition hcond => ?_
  refine (yields_braced hblock).bind fun body hbody => yields_get fun c => ?_
  refine (yields_readElse hcoded hblock _).bind fun more hmore => yields_pure ?_
  obtain ⟨further, last, rfl, hfurther, hlast⟩ := hmore
  exact .conditional (.block (.branch condition) rfl rfl (by simp) hcond hbody) hfurther hlast

theorem yields_readArms (n : Nat) : Yields text code (readArms block n) fun ss =>
    ∀ s ∈ ss, Printable .arm s := by
  induction n with
  | zero => exact yields_fail _
  | succ n ih =>
    unfold readArms
    refine (yields_of_takes fun _ => takes_skipWhile _).bind fun _ _ => ?_
    refine (yields_of_takes fun _ => takes_accept _).bind fun closed _ => ?_
    split
    · exact yields_pure (List.forall_mem_nil _)
    refine yields_line.bind fun line _ => ?_
    refine (yields_of_takes fun _ => takes_acceptKeyword _).bind fun isCase _ => ?_
    split
    · have hstop : ∀ t t' : Token, t.lexeme.Alike t'.lexeme →
          t'.isPunct .colon = t.isPunct .colon := fun _ _ h => isPunct_alike h _
      refine (yields_before hcoded hstop _).bind fun value hvalue => ?_
      refine (yields_of_takes fun _ => takes_mark _ _).bind fun _ _ => ?_
      refine (hblock _).bind fun body hbody => ih.bind fun more hmore => yields_pure ?_
      exact List.forall_mem_cons.mpr ⟨.block (.case_ value) rfl rfl (by simp) hvalue hbody, hmore⟩
    refine (yields_of_takes fun _ => takes_acceptKeyword _).bind fun isDefault _ => ?_
    split
    · refine (yields_of_takes fun _ => takes_mark _ _).bind fun _ _ => ?_
      refine (hblock _).bind fun body hbody => ih.bind fun more hmore => yields_pure ?_
      exact List.forall_mem_cons.mpr ⟨.block .fallback rfl rfl (by simp) trivial hbody, hmore⟩
    · exact yields_fail _

theorem yields_readSwitch (line : Nat) :
    Yields text code (readSwitch block line) (Printable .body) := by
  unfold readSwitch
  refine (yields_parenthesized hcoded _).bind fun subject hsubject => ?_
  refine (yields_of_takes fun _ => takes_mark _ _).bind fun _ _ => yields_get fun c => ?_
  refine (yields_readArms hcoded hblock _).bind fun arms harms => yields_pure ?_
  exact .block (.switch subject) rfl rfl (by simp) hsubject harms

theorem yields_readFor (line : Nat) : Yields text code (readFor block line) (Printable .body) := by
  unfold readFor
  refine (yields_name hcoded _).bind fun variable_ hname => ?_
  have hin : Yields text code (Reading.keyword .in_) fun _ => True :=
    (yields_of_takes fun _ => takes_acceptKeyword _).bind fun found _ =>
      (yields_unless _).mono fun _ _ => trivial
  refine hin.bind fun _ _ => (yields_readIterable hcoded).bind fun iterable hiter => ?_
  refine (yields_braced hblock).bind fun body hbody => yields_pure ?_
  exact .block (.forLoop variable_ iterable) rfl rfl (by simp) ⟨hname, hiter⟩ hbody

theorem yields_readWhile (line : Nat) :
    Yields text code (readWhile block line) (Printable .body) := by
  unfold readWhile
  refine (yields_parenthesized hcoded _).bind fun condition hcond => ?_
  refine (yields_braced hblock).bind fun body hbody => yields_pure ?_
  exact .block (.whileLoop condition) rfl rfl (by simp) hcond hbody

theorem yields_readFunction (line : Nat) :
    Yields text code (readFunction block line) (Printable .body) := by
  unfold readFunction
  refine (yields_name hcoded _).bind fun name hname => ?_
  refine (yields_of_takes fun _ => takes_mark _ _).bind fun _ _ => ?_
  refine (yields_of_takes fun _ => takes_accept _).bind fun closed _ => ?_
  have hnone : Yields text code (pure []) fun params : List String =>
      params.Nodup ∧ ∀ p ∈ params, IsName p :=
    yields_pure ⟨List.nodup_nil, List.forall_mem_nil _⟩
  refine .join hnone
    (yields_get fun c => (yields_readParameters hcoded _ _).mono fun _ h => ⟨h.1, h.2.2⟩)
    fun params hparams => (yields_braced hblock).bind fun body hbody => yields_pure ?_
  exact .block (.function name params) rfl rfl (by simp) ⟨hname, hparams⟩ hbody

/-! ## Whole scripts -/

theorem finishes_afterKeyword? {line : Nat} {word : Keyword} {rule : Reading Statement}
    (h : afterKeyword? block line word = some rule) (hc : Within text code c) :
    Finishes rule c (Printable .body) := by
  have hrule {r : Reading Statement} (hr : Yields text code r (Printable .body)) :
      Finishes r c (Printable .body) := (hr c hc).finishes fun _ _ h => h
  have hkind {r : Reading Kind} (hr : Yields text code r Kind.OnLine) :
      Finishes ((ofLine · line) <$> r) c (Printable .body) :=
    ((hr c hc).finishes fun _ _ h => h).map fun _ => .line
  have hlone {kind : Kind} (hk : kind.OnLine) :
      Finishes (pure (ofLine kind line)) c (Printable .body) := finishes_pure (.line hk)
  have hexpr (kind : SourceExpr → Kind) (hk : ∀ e, e.OnLine → (kind e).OnLine) (what : String) :
      Finishes (do return ofLine (kind (← restOfStatement what)) line) c (Printable .body) :=
    ((yields_restOfStatement hcoded what c hc).finishes fun _ _ h => h).bind_pure
      fun e he => .line (hk e he)
  cases word <;> cases h
  case import_ => exact hkind (yields_readImport hcoded)
  case declare => exact (finishes_readDeclare hcoded hc).map fun _ => .line
  case run =>
    exact ((yields_invocation hcoded c hc).finishes fun _ _ h => h).bind_pure
      fun call hcall => .line ⟨rfl, hcall⟩
  case task => exact hkind (yields_readTaskBlock hcoded)
  case export_ => exact hexpr .exportValue (fun e he => ⟨rfl, he⟩) _
  case echo => exact hexpr .echo (fun e he => ⟨rfl, he⟩) _
  case if_ => exact hrule (yields_readConditional hcoded hblock line)
  case switch => exact hrule (yields_readSwitch hcoded hblock line)
  case for_ => exact hrule (yields_readFor hcoded hblock line)
  case while_ => exact hrule (yields_readWhile hcoded hblock line)
  case break_ => exact hlone ⟨rfl, trivial⟩
  case breakAll => exact hlone ⟨rfl, trivial⟩
  case continue_ => exact hlone ⟨rfl, trivial⟩
  case return_ => exact hkind (yields_readReturn hcoded)
  case function => exact hrule (yields_readFunction hcoded hblock line)

theorem finishes_rule? {label : String} {rule : Reading Statement}
    (h : rule? block c = some (label, rule)) (hc : Within text code c) :
    Finishes rule c (Printable .body) := by
  have hassign : Finishes ((ofLine · c.line) <$> readAssign) c (Printable .body) :=
    (finishes_readAssign hcoded hc).map fun _ => .line
  unfold rule? at h
  split at h
  · obtain ⟨rule, hrule, hpair⟩ := Option.map_eq_some_iff.mp h
    cases hpair
    rw [seqRight_eq_bind]
    exact (takes_advance 1).bind_finishes fun _ _ c' hp _ =>
      finishes_afterKeyword? hcoded hblock hrule (hc.passes hp)
  · split at h
    · cases h
      exact hassign
    · split at h
      · rename_i hat
        cases h
        intro s c' hr
        obtain ⟨call, c₁, hcall, hr⟩ := bind_eq_ok.mp hr
        obtain ⟨used, hp, hprintable⟩ := yields_invocation hcoded c hc call c₁ hcall
        have hname := isName_of_isAtInvocation hcoded hc hat hcall
        cases hr
        exact ⟨⟨used, hp⟩, fun _ => .line ⟨rfl, hname, hprintable⟩⟩
      · cases h
  · split at h
    · cases h
      exact hassign
    · cases h
  · cases h

theorem yields_readOne (token : Token) :
    Yields text code (readOne block token) (Printable .body) := by
  intro c hc
  unfold readOne
  refine takes_get ?_
  split
  · exact takes_fail _
  · rename_i label rule hrule
    exact (finishes_rule? hcoded hblock hrule hc).endOf label

omit hblock in
/-- The statements that are read can be printed. -/
theorem yields_readList (n : Nat) (terminator : Terminator) :
    Yields text code (readList n terminator) fun ss => ∀ s ∈ ss, Printable .body s := by
  induction n generalizing terminator with
  | zero => exact yields_fail _
  | succ n ih =>
    unfold readList
    refine (yields_of_takes fun _ => takes_skipWhile _).bind fun _ _ => yields_get fun c => ?_
    split
    · split
      · exact yields_pure (List.forall_mem_nil _)
      · exact yields_fail _
    · split
      · exact yields_pure (List.forall_mem_nil _)
      split
      · exact yields_fail _
      refine (yields_readOne hcoded ih _).bind fun statement hs => (ih _).bind fun more hm => ?_
      exact yields_pure (List.forall_mem_cons.mpr ⟨hs, hm⟩)

end

/-- What is read from a text can be printed. -/
theorem printable_of_ofSource {source : String} {nodes : List Statement}
    (h : ofSource source = .ok nodes) : ∀ s ∈ nodes, Printable .body s := by
  obtain ⟨tokens, c, hcheck, hscan, hread⟩ := ofSource_eq_ok_iff.mp h
  have hcoded : Coded source.toList (uncommented tokens) :=
    ⟨tokens, ofSource_eq_ok.mpr ⟨by rwa [String.toList_ofList], by rwa [String.toList_ofList]⟩, rfl⟩
  have hwithin : Within source.toList (uncommented tokens)
      (.ofTokens source.toList (uncommented tokens)) := ⟨rfl, List.suffix_refl _⟩
  obtain ⟨used, -, hnodes⟩ := yields_readList hcoded _ .endOfText _ hwithin nodes c hread
  exact hnodes

end Statement

end PipelineScript
