import PipelineScript.Proofs.Expression.Variables
import PipelineScript.Proofs.Statement.Binders
import PipelineScript.Proofs.Statement.Slices

/-! # The names that a script mentions

A statement looks at the values of names in two ways: it evaluates its expressions, and it writes to
a name that may be bound already. Main statement: all these names are among the tokens of the text
that the statements are read from (`Statement.mentions_of_ofSource`). -/

namespace PipelineScript

/-- The names that a statement of the kind writes to wherever they are bound. -/
def Kind.targets : Kind → List String
  | assign name _ => [name]
  | taskBlock target _ => [target]
  | _ => []

/-- All names whose values a statement of the kind looks at have the property. -/
structure Kind.Mentions (P : String → Prop) (k : Kind) : Prop where
  writes : ∀ name ∈ k.targets, P name
  reads : ∀ e ∈ k.expressions, ∀ tree, Expression.ofSource e.source = .ok tree →
    ∀ name ∈ tree.freeNames, P name

theorem Kind.Mentions.mono {P Q : String → Prop} {k : Kind} (h : k.Mentions P)
    (hPQ : ∀ name, P name → Q name) : k.Mentions Q :=
  ⟨fun name hname => hPQ name (h.writes name hname),
    fun e he tree htree name hname => hPQ name (h.reads e he tree htree name hname)⟩

namespace Reading

variable {text : List Char} {code : List Token}

/-- A name that is read is one of the tokens. -/
theorem draws_name (what : String) :
    Yields text code (name what) fun s => s ∈ Lexeme.namesOf (code.map Token.lexeme) := by
  intro c hc s c' hrun
  obtain ⟨used, hp, t, rfl, ht⟩ := takes_name what s c' hrun
  have hmem : t ∈ code := hc.suffix.subset (by rw [hp.ahead]; exact List.mem_cons_self)
  refine ⟨[t], hp, List.mem_filterMap.mpr ⟨t.lexeme, List.mem_map_of_mem hmem, ?_⟩⟩
  rw [ht]
  rfl

end Reading

namespace Statement

open Reading

variable {text : List Char} {code : List Token}

/-- The statements of a tree of the kind write to names among the tokens. -/
def Draws (code : List Token) (k : Kind) : Prop :=
  ∀ name ∈ k.targets, name ∈ Lexeme.namesOf (code.map Token.lexeme)

/-- The statement writes to no name, but those below it may. -/
theorem every_draws {s : Statement} (hs : s.kind.targets = [])
    (h : ∀ t ∈ s.children, t.Every (Draws code)) : s.Every (Draws code) :=
  .intro (by rw [Draws, hs]; exact List.forall_mem_nil _) h

/-! ## Statements on a line -/

section

variable (hcode : Token.Balanced code)
include hcode

theorem draws_readAssign : Yields text code readAssign (Draws code) := by
  unfold readAssign
  refine (draws_name _).bind fun name hname => Yields.bind (cuts_mark _ _) fun _ _ => ?_
  exact Yields.bind (cuts_readSource hcode) fun source _ =>
    yields_pure (List.forall_mem_singleton.mpr hname)

theorem draws_readTaskBlock : Yields text code readTaskBlock (Draws code) := by
  unfold readTaskBlock
  refine (draws_name _).bind fun target htarget => Yields.bind (cuts_mark _ _) fun _ _ =>
    yields_get fun c => ?_
  exact Yields.bind (cuts_readTaskEntries hcode _ _) fun tasks _ =>
    yields_pure (List.forall_mem_singleton.mpr htarget)

omit hcode in
theorem draws_readImport : Yields text code readImport (Draws code) := by
  unfold readImport
  refine Yields.bind (cuts_dottedName _) fun path _ => Yields.bind (cuts_acceptKeyword _)
    fun found _ => ?_
  exact .join (yields_of_takes fun _ => takes_name _) (yields_pure trivial) fun _ _ =>
    yields_pure (List.forall_mem_nil _)

theorem draws_readDeclare : Yields text code readDeclare (Draws code) := by
  unfold readDeclare
  have htype : Yields text code (some <$> dottedName "a type name") fun _ => True :=
    Yields.map (cuts_dottedName _) fun _ _ => trivial
  have hvalue : Yields text code (some <$> readSource) fun _ => True :=
    Yields.map (cuts_readSource hcode) fun _ _ => trivial
  refine Yields.bind (cuts_name _) fun name _ => Yields.bind (cuts_accept _) fun typed _ => ?_
  refine .join htype (yields_pure trivial) fun declaredType _ => ?_
  refine Yields.bind (cuts_accept _) fun stored _ => ?_
  exact .join hvalue (yields_pure trivial) fun value _ => yields_pure (List.forall_mem_nil _)

theorem draws_readReturn : Yields text code readReturn (Draws code) := by
  unfold readReturn
  refine yields_get fun c => ?_
  split
  · exact yields_pure (List.forall_mem_nil _)
  · exact Yields.bind (cuts_restOfStatement hcode _) fun value _ =>
      yields_pure (List.forall_mem_nil _)

/-! ## Statements with a block -/

variable {block : Terminator → Reading (List Statement)}
  (hblock : ∀ terminator, Yields text code (block terminator)
    fun nodes => ∀ s ∈ nodes, s.Every (Draws code))
include hblock

omit hcode in
theorem draws_braced :
    Yields text code (braced block) fun nodes => ∀ s ∈ nodes, s.Every (Draws code) := by
  unfold braced
  refine Yields.bind (cuts_mark _ _) fun _ _ => (hblock _).bind fun body h => ?_
  exact Yields.bind (cuts_mark _ _) fun _ _ => yields_pure h

theorem draws_readElse (n : Nat) :
    Yields text code (readElse block n) fun nodes => ∀ s ∈ nodes, s.Every (Draws code) := by
  induction n with
  | zero => exact yields_pure (List.forall_mem_nil _)
  | succ n ih =>
    unfold readElse
    refine fun c hc => takes_get ?_
    dsimp only
    split
    · have hp : c.Passes _ ((c.skipWhile Token.isLineEnd).advance 1) :=
        (Cursor.Passes.advance c _).trans (.advance _ 1)
      refine (takes_set hp).bind fun _ _ c' hp' _ => ?_
      refine Yields.bind (cuts_acceptKeyword _) (fun found _ => ?_) c' (hc.passes hp')
      split
      · refine Yields.bind (cuts_parenthesized hcode _) fun condition _ => ?_
        refine (draws_braced hblock).bind fun body hbody => ih.bind fun more hmore => ?_
        exact yields_pure (List.forall_mem_cons.mpr ⟨every_draws rfl hbody, hmore⟩)
      · exact (draws_braced hblock).bind fun body hbody =>
          yields_pure (List.forall_mem_singleton.mpr (every_draws rfl hbody))
    · exact takes_pure (List.forall_mem_nil _)

theorem draws_readConditional (line : Nat) :
    Yields text code (readConditional block line) (Statement.Every (Draws code)) := by
  unfold readConditional
  refine Yields.bind (cuts_parenthesized hcode _) fun condition _ => ?_
  refine (draws_braced hblock).bind fun body hbody => yields_get fun c => ?_
  refine (draws_readElse hcode hblock _).bind fun more hmore => yields_pure (every_draws rfl ?_)
  exact List.forall_mem_cons.mpr ⟨every_draws rfl hbody, hmore⟩

theorem draws_readArms (n : Nat) :
    Yields text code (readArms block n) fun nodes => ∀ s ∈ nodes, s.Every (Draws code) := by
  induction n with
  | zero => exact yields_fail _
  | succ n ih =>
    unfold readArms
    refine Yields.bind (cuts_skipWhile _) fun _ _ => Yields.bind (cuts_accept _)
      fun closed _ => ?_
    split
    · exact yields_pure (List.forall_mem_nil _)
    refine Yields.bind cuts_line fun line _ => Yields.bind (cuts_acceptKeyword _)
      fun isCase _ => ?_
    split
    · refine Yields.bind (cuts_expression hcode _ _) fun value _ => ?_
      refine Yields.bind (cuts_mark _ _) fun _ _ => (hblock _).bind fun body hbody => ?_
      exact ih.bind fun more hmore =>
        yields_pure (List.forall_mem_cons.mpr ⟨every_draws rfl hbody, hmore⟩)
    refine Yields.bind (cuts_acceptKeyword _) fun isDefault _ => ?_
    split
    · refine Yields.bind (cuts_mark _ _) fun _ _ => (hblock _).bind fun body hbody => ?_
      exact ih.bind fun more hmore =>
        yields_pure (List.forall_mem_cons.mpr ⟨every_draws rfl hbody, hmore⟩)
    · exact yields_fail _

theorem draws_readSwitch (line : Nat) :
    Yields text code (readSwitch block line) (Statement.Every (Draws code)) := by
  unfold readSwitch
  refine Yields.bind (cuts_parenthesized hcode _) fun subject _ => ?_
  refine Yields.bind (cuts_mark _ _) fun _ _ => yields_get fun c => ?_
  exact (draws_readArms hcode hblock _).bind fun arms harms => yields_pure (every_draws rfl harms)

theorem draws_readFor (line : Nat) :
    Yields text code (readFor block line) (Statement.Every (Draws code)) := by
  unfold readFor
  refine Yields.bind (cuts_name _) fun variable_ _ => Yields.bind (cuts_keyword _) fun _ _ => ?_
  refine Yields.bind (cuts_readIterable hcode) fun iterable _ => ?_
  exact (draws_braced hblock).bind fun body hbody => yields_pure (every_draws rfl hbody)

theorem draws_readWhile (line : Nat) :
    Yields text code (readWhile block line) (Statement.Every (Draws code)) := by
  unfold readWhile
  refine Yields.bind (cuts_parenthesized hcode _) fun condition _ => ?_
  exact (draws_braced hblock).bind fun body hbody => yields_pure (every_draws rfl hbody)

omit hcode in
theorem draws_readFunction (line : Nat) :
    Yields text code (readFunction block line) (Statement.Every (Draws code)) := by
  unfold readFunction
  refine Yields.bind (cuts_name _) fun name _ => Yields.bind (cuts_mark _ _) fun _ _ => ?_
  refine Yields.bind (cuts_accept _) fun closed _ => ?_
  have hparams : Yields text code (get >>= fun c => readParameters c.ahead.length [])
      fun _ => True := yields_get fun c => (cuts_readParameters _ _).mono fun _ _ => trivial
  exact .join (yields_pure trivial) hparams fun params _ =>
    (draws_braced hblock).bind fun body hbody => yields_pure (every_draws rfl hbody)

/-! ## Whole scripts -/

theorem draws_afterKeyword? {line : Nat} {word : Keyword} {rule : Reading Statement}
    (h : afterKeyword? block line word = some rule) :
    Yields text code rule (Statement.Every (Draws code)) := by
  have hline {r : Reading Kind} (hr : Yields text code r (Draws code)) :
      Yields text code ((ofLine · line) <$> r) (Statement.Every (Draws code)) :=
    hr.map fun kind hkind => .intro hkind (List.forall_mem_nil _)
  have hplain {kind : Kind} (hk : kind.targets = []) : (ofLine kind line).Every (Draws code) :=
    every_draws hk (List.forall_mem_nil _)
  cases word <;> cases h
  case import_ => exact hline draws_readImport
  case declare => exact hline (draws_readDeclare hcode)
  case run => exact Yields.bind (cuts_invocation hcode) fun call _ => yields_pure (hplain rfl)
  case task => exact hline (draws_readTaskBlock hcode)
  case export_ =>
    exact Yields.bind (cuts_restOfStatement hcode _) fun value _ => yields_pure (hplain rfl)
  case echo =>
    exact Yields.bind (cuts_restOfStatement hcode _) fun value _ => yields_pure (hplain rfl)
  case if_ => exact draws_readConditional hcode hblock line
  case switch => exact draws_readSwitch hcode hblock line
  case for_ => exact draws_readFor hcode hblock line
  case while_ => exact draws_readWhile hcode hblock line
  case break_ => exact yields_pure (hplain rfl)
  case breakAll => exact yields_pure (hplain rfl)
  case continue_ => exact yields_pure (hplain rfl)
  case return_ => exact hline (draws_readReturn hcode)
  case function => exact draws_readFunction hblock line

theorem draws_rule? {c : Cursor} {label : String} {rule : Reading Statement}
    (h : rule? block c = some (label, rule)) :
    Yields text code rule (Statement.Every (Draws code)) := by
  have hassign : Yields text code ((ofLine · c.line) <$> readAssign)
      (Statement.Every (Draws code)) :=
    (draws_readAssign hcode).map fun kind hkind => .intro hkind (List.forall_mem_nil _)
  unfold rule? at h
  split at h
  · obtain ⟨rule, hrule, hpair⟩ := Option.map_eq_some_iff.mp h
    cases hpair
    rw [seqRight_eq_bind]
    exact Yields.bind (cuts_advance 1) fun _ _ => draws_afterKeyword? hcode hblock hrule
  · split at h
    · cases h
      exact hassign
    · split at h
      · cases h
        exact Yields.bind (cuts_invocation hcode) fun call _ =>
          yields_pure (every_draws rfl (List.forall_mem_nil _))
      · cases h
  · split at h
    · cases h
      exact hassign
    · cases h
  · cases h

theorem draws_readOne (token : Token) :
    Yields text code (readOne block token) (Statement.Every (Draws code)) := by
  unfold readOne
  refine yields_get fun c => ?_
  split
  · exact yields_fail _
  · rename_i label rule hrule
    refine (draws_rule? hcode hblock hrule).bind fun statement h => ?_
    exact Yields.bind (cuts_endOf _) fun _ _ => yields_pure h

omit hblock in
/-- The names that statements write to, at any depth, are among the tokens. -/
theorem draws_readList (n : Nat) (terminator : Terminator) :
    Yields text code (readList n terminator) fun nodes => ∀ s ∈ nodes, s.Every (Draws code) := by
  induction n generalizing terminator with
  | zero => exact yields_fail _
  | succ n ih =>
    unfold readList
    refine Yields.bind (cuts_skipWhile _) fun _ _ => yields_get fun c => ?_
    split
    · split
      · exact yields_pure (List.forall_mem_nil _)
      · exact yields_fail _
    · split
      · exact yields_pure (List.forall_mem_nil _)
      split
      · exact yields_fail _
      exact (draws_readOne hcode ih _).bind fun statement hs => (ih _).bind fun more hm =>
        yields_pure (List.forall_mem_cons.mpr ⟨hs, hm⟩)

end

/-! ## Main statement -/

mutual

/-- What holds of all expressions of a tree holds of those of every statement in it. -/
theorem every_of_expressions {P : SourceExpr → Prop} :
    ∀ s : Statement, (∀ e ∈ s.expressions, P e) → s.Every fun k => ∀ e ∈ k.expressions, P e
  | ⟨_, _, _, children⟩, h => by
    obtain ⟨hkind, hchildren⟩ := List.forall_mem_append.mp h
    exact .intro hkind (every_of_expressionsOf children hchildren)

theorem every_of_expressionsOf {P : SourceExpr → Prop} :
    ∀ nodes : List Statement, (∀ e ∈ expressionsOf nodes, P e) →
      ∀ s ∈ nodes, s.Every fun k => ∀ e ∈ k.expressions, P e
  | [], _ => List.forall_mem_nil _
  | s :: rest, h => by
    obtain ⟨hs, hrest⟩ := List.forall_mem_append.mp h
    exact List.forall_mem_cons.mpr ⟨every_of_expressions s hs, every_of_expressionsOf rest hrest⟩

end

/-- The variables of an expression that is cut from a text are names among the tokens. -/
theorem freeNames_of_cut {source : String} {tokens : List Token} {e : SourceExpr}
    (htokens : Token.ofSource source = .ok tokens)
    (hcut : IsCut source.toList (tokens.filter fun t => !t.lexeme.isComment) e)
    {tree : Expression} (htree : Expression.ofSource e.source = .ok tree) :
    ∀ name ∈ tree.freeNames, name ∈ Lexeme.namesOf (tokens.map Token.lexeme) := by
  obtain ⟨range, hrange, -, hsource⟩ := hcut
  obtain ⟨own, hown, hcode⟩ := Token.exists_scan_of_sourceOf? htokens hrange hsource
  unfold Expression.ofSource at htree
  cases hchars : Token.ofChars e.source.toList with
  | error fault => rw [hchars] at htree; cases htree
  | ok tokens' =>
    rw [hchars] at htree
    have hscan : Token.scan 1 0 e.source.toList = .ok tokens' :=
      (Token.ofSource_eq_ok.mp (by rw [Token.ofSource, hchars]; rfl)).2
    obtain rfl := Except.ok.inj (hown.symm.trans hscan)
    have hsub : Token.code own ⊆ tokens.map Token.lexeme := by
      rw [hcode]
      intro l hl
      obtain ⟨t, ht, rfl⟩ := List.mem_map.mp (List.mem_filter.mp hl).1
      exact List.mem_map_of_mem (List.mem_filter.mp (hrange.subset ht)).1
    intro name hname
    exact Lexeme.namesOf_subset hsub (Expression.freeNames_of_ofLexemes htree hname)

/-- All names whose values the statements of a text look at are among its tokens. -/
theorem mentions_of_ofSource {source : String} {nodes : List Statement} {tokens : List Token}
    (h : ofSource source = .ok nodes) (htokens : Token.ofSource source = .ok tokens) :
    ∀ s ∈ nodes, s.Every (Kind.Mentions (· ∈ Lexeme.namesOf (tokens.map Token.lexeme))) := by
  have hread : ofTokens source.toList tokens = .ok nodes := by
    rwa [ofSource, htokens] at h
  obtain ⟨hcheck, hscan⟩ := Token.ofSource_eq_ok.mp htokens
  have hcode : Token.Balanced (tokens.filter fun t => !t.lexeme.isComment) :=
    Token.balanced_of_check hcheck hscan
  have hreads := every_of_expressionsOf nodes fun e he =>
    fun tree (htree : Expression.ofSource e.source = .ok tree) =>
      freeNames_of_cut htokens (cut_of_ofTokens hcode hread e he) htree
  have hwrites : ∀ s ∈ nodes, s.Every (Draws (tokens.filter fun t => !t.lexeme.isComment)) := by
    unfold ofTokens at hread
    dsimp only at hread
    generalize hr : (readList _ .endOfText).run (.ofTokens source.toList _) = r at hread
    cases r with
    | error d => cases hread
    | ok result =>
      cases hread
      obtain ⟨-, -, hdraws⟩ := draws_readList hcode _ .endOfText (.ofTokens source.toList _)
        ⟨rfl, List.suffix_refl _⟩ result.1 result.2 hr
      exact hdraws
  have hsub : (tokens.filter fun t => !t.lexeme.isComment) ⊆ tokens :=
    fun _ ht => (List.mem_filter.mp ht).1
  exact fun s hs => ((hwrites s hs).and (hreads s hs)).mono fun k hk =>
    ⟨fun name hname => Lexeme.namesOf_subset (List.map_subset _ hsub) (hk.1 name hname), hk.2⟩

end Statement

end PipelineScript
