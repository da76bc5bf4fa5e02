import PipelineScript.Proofs.Statement.Reading

/-! # The expressions of a script

Whatever reader an expression comes from, and however deep it lies in the tree, it is cut from a
balanced stretch of the tokens (`Statement.cuts_readList`). -/

namespace PipelineScript

def Source.expressions : Source → List SourceExpr
  | expr e => [e]
  | run call => call.args
  | invoke call e => e :: call.args

def Iterable.expressions : Iterable → List SourceExpr
  | range start stop _ => [start, stop]
  | each e => [e]

/-- The expressions that a statement of the kind keeps, without those of its children. -/
def Kind.expressions : Kind → List SourceExpr
  | declare _ _ value => value.toList.flatMap Source.expressions
  | assign _ value => value.expressions
  | run invoked | call invoked => invoked.args
  | taskBlock _ tasks => tasks.flatMap fun entry => entry.call.args
  | exportValue e | echo e | branch e | switch e | case_ e | whileLoop e => [e]
  | forLoop _ iterable => iterable.expressions
  | returnValue value => value.toList
  | _ => []

mutual

/-- The expressions of a statement and of all below it. -/
def Statement.expressions : Statement → List SourceExpr
  | ⟨kind, _, _, children⟩ => kind.expressions ++ Statement.expressionsOf children

def Statement.expressionsOf : List Statement → List SourceExpr
  | [] => []
  | s :: ss => s.expressions ++ Statement.expressionsOf ss

end

namespace Reading

variable {α β : Type} {text : List Char} {code : List Token}

/-- Every expression in the result of the reading is cut from the tokens. -/
def Cuts (text : List Char) (code : List Token) (r : Reading α)
    (expressions : α → List SourceExpr) : Prop :=
  Yields text code r fun a => ∀ e ∈ expressions a, IsCut text code e

variable {r : Reading α} {E : α → List SourceExpr} {F : β → List SourceExpr}

theorem Cuts.bind {f : α → Reading β} (h : Cuts text code r E)
    (hf : ∀ a, (∀ e ∈ E a, IsCut text code e) → Cuts text code (f a) F) :
    Cuts text code (r >>= f) F := Yields.bind h hf

theorem Cuts.map {f : α → β} (h : Cuts text code r E) (hf : ∀ a, F (f a) = E a) :
    Cuts text code (f <$> r) F := Yields.map h fun a ha => by rw [hf]; exact ha

theorem cuts_pure {a : α} (h : ∀ e ∈ E a, IsCut text code e) : Cuts text code (pure a) E :=
  yields_pure h

theorem cuts_nil {a : α} (h : E a = []) : Cuts text code (pure a) E :=
  cuts_pure (by rw [h]; exact List.forall_mem_nil _)

theorem cuts_fail (cause : StatementCause) : Cuts text code (fail cause) E := yields_fail cause

theorem cuts_get {f : Cursor → Reading β} (h : ∀ c, Cuts text code (f c) F) :
    Cuts text code (get >>= f) F := yields_get h

/-- Both ways lead on to the same reading. -/
theorem Cuts.join {p : Prop} [Decidable p] {r r' : Reading α} {f : α → Reading β}
    (h : Cuts text code r E) (h' : Cuts text code r' E)
    (hf : ∀ a, (∀ e ∈ E a, IsCut text code e) → Cuts text code (f a) F) :
    Cuts text code (if p then r >>= f else r' >>= f) F := Yields.join h h' hf

/-- A condition that has to hold before the reading goes on. -/
theorem cuts_unless {p : Prop} [Decidable p] (cause : StatementCause) :
    Cuts text code (if p then pure () else fail cause) fun _ => [] :=
  (yields_unless cause).mono fun _ _ => List.forall_mem_nil _

theorem cuts_failIf {p : Prop} [Decidable p] (cause : StatementCause) {f : Unit → Reading β}
    (h : Cuts text code (f ()) F) :
    Cuts text code (if p then fail cause >>= f else f ()) F := yields_failIf cause fun _ => h

theorem cuts_failUnless {p : Prop} [Decidable p] (cause : StatementCause) {f : Unit → Reading β}
    (h : Cuts text code (f ()) F) :
    Cuts text code (if p then f () else fail cause >>= f) F := yields_failUnless cause fun _ => h

/-! ## Readings without expressions -/

theorem cuts_of_takes {post : Cursor → α → List Token → Prop} (h : ∀ c, Takes r c (post c)) :
    Cuts text code r fun _ => [] := (yields_of_takes h).mono fun _ _ => List.forall_mem_nil _

theorem cuts_advance (n : Nat) : Cuts text code (advance n) fun _ => [] :=
  cuts_of_takes fun _ => takes_advance n

theorem cuts_skipWhile (p : Token → Bool) : Cuts text code (skipWhile p) fun _ => [] :=
  cuts_of_takes fun _ => takes_skipWhile p

theorem cuts_line : Cuts text code line fun _ => [] :=
  yields_line.mono fun _ _ => List.forall_mem_nil _

theorem cuts_accept (p : Punct) : Cuts text code (accept p) fun _ => [] :=
  cuts_of_takes fun _ => takes_accept p

theorem cuts_acceptKeyword (k : Keyword) : Cuts text code (acceptKeyword k) fun _ => [] :=
  cuts_of_takes fun _ => takes_acceptKeyword k

theorem cuts_mark (p : Punct) (what : String) : Cuts text code (mark p what) fun _ => [] :=
  cuts_of_takes fun _ => takes_mark p what

theorem cuts_keyword (k : Keyword) : Cuts text code (keyword k) fun _ => [] :=
  (cuts_acceptKeyword k).bind fun _ _ => cuts_unless _

theorem cuts_name (what : String) : Cuts text code (name what) fun _ => [] :=
  cuts_of_takes fun _ => takes_name what

theorem cuts_dottedName (what : String) : Cuts text code (dottedName what) fun _ => [] :=
  cuts_of_takes fun _ => takes_dottedName what

theorem cuts_endOf (statement : String) : Cuts text code (endOf statement) fun _ => [] :=
  cuts_get fun _ => cuts_unless _

/-! ## Readings of expressions -/

section

variable (hcode : Token.Balanced code)
include hcode

theorem cuts_expression (stop : Token → Bool) (what : String) :
    Cuts text code (expression stop what) fun e => [e] := fun _ hc =>
  (takes_expression hcode hc stop what).mono fun _ _ h => List.forall_mem_singleton.mpr h.1

theorem cuts_restOfStatement (what : String) :
    Cuts text code (restOfStatement what) fun e => [e] :=
  cuts_expression hcode _ what

theorem cuts_parenthesized (what : String) :
    Cuts text code (parenthesized what) fun e => [e] := fun _ hc =>
  (takes_parenthesized hcode hc what).mono fun _ _ h => List.forall_mem_singleton.mpr h

theorem cuts_invocation : Cuts text code invocation Invocation.args := fun _ hc =>
  (takes_invocation hcode hc).mono fun _ _ h => h.1

end

end Reading

namespace Statement

open Reading

variable {text : List Char} {code : List Token}

theorem expressions_ofLine (kind : Kind) (line : Nat) :
    (ofLine kind line).expressions = kind.expressions := by
  simp only [ofLine, expressions, expressionsOf, List.append_nil]

theorem expressions_ofBlock (kind : Kind) (line : Nat) (children : List Statement) :
    (ofBlock kind line children).expressions = kind.expressions ++ expressionsOf children := by
  simp only [ofBlock, expressions]

/-! ## Statements on a line -/

theorem cuts_readImport : Cuts text code readImport Kind.expressions := by
  unfold readImport
  refine (cuts_dottedName _).bind fun path _ => (cuts_acceptKeyword _).bind fun found _ => ?_
  exact .join (cuts_name _) (cuts_nil rfl) fun _ _ => cuts_nil rfl

theorem cuts_readTaskKey : Cuts text code readTaskKey fun _ => [] := by
  unfold readTaskKey
  refine cuts_get fun c => ?_
  split
  · exact (cuts_advance 1).bind fun _ _ => cuts_nil rfl
  · exact (cuts_advance 1).bind fun _ _ => cuts_nil rfl
  · exact cuts_fail _

section

variable (hcode : Token.Balanced code)
include hcode

/-- The expression of a bare call is cut from the whole call. -/
theorem cut_of_bareCall? {c c' : Cursor} {source : Source} (hc : Within text code c)
    (h : bareCall? c = some (source, c')) :
    ∃ used, c.Passes used c' ∧ ∀ e ∈ source.expressions, IsCut text code e := by
  obtain ⟨-, call, e, rfl, hcall, -, he⟩ := bareCall?_eq_some_iff.mp h
  obtain ⟨used, hp, hargs, hused, -⟩ := takes_invocation hcode hc call c' hcall
  refine ⟨used, hp, List.forall_mem_cons.mpr ⟨⟨used, ?_, hused, ?_⟩, hargs⟩⟩
  · exact (hp.ahead ▸ List.prefix_append used _).isInfix.trans hc.suffix.isInfix
  · rwa [hp.ahead, List.length_append, Nat.add_sub_cancel, List.take_left, hc.source] at he

theorem cuts_readSource : Cuts text code readSource Source.expressions := by
  unfold readSource
  refine (cuts_acceptKeyword _).bind fun found _ => ?_
  split
  · exact (cuts_invocation hcode).bind fun call h => cuts_pure h
  · refine fun c hc => takes_get ?_
    split
    · rename_i source c' hcall
      obtain ⟨used, hp, hcut⟩ := cut_of_bareCall? hcode hc hcall
      exact (takes_set hp).bind fun _ _ _ _ _ => takes_pure hcut
    · exact (cuts_restOfStatement hcode _).bind (fun e h => cuts_pure h) c hc

theorem cuts_readDeclare : Cuts text code readDeclare Kind.expressions := by
  unfold readDeclare
  refine (cuts_name _).bind fun name _ => (cuts_accept _).bind fun typed _ => ?_
  refine .join (E := fun _ => []) ((cuts_dottedName _).map fun _ => rfl) (cuts_nil rfl)
    fun declaredType _ => (cuts_accept _).bind fun stored _ => ?_
  refine .join (E := fun value => value.toList.flatMap Source.expressions)
    ((cuts_readSource hcode).map fun source => ?_) (cuts_nil rfl) fun value h => cuts_pure h
  exact List.flatMap_singleton _ _

theorem cuts_readAssign : Cuts text code readAssign Kind.expressions := by
  unfold readAssign
  refine (cuts_name _).bind fun name _ => (cuts_mark _ _).bind fun _ _ => ?_
  exact (cuts_readSource hcode).bind fun source h => cuts_pure h

theorem cuts_readTaskEntries (n : Nat) (seen : List String) :
    Cuts text code (readTaskEntries n seen) fun entries =>
      entries.flatMap fun entry => entry.call.args := by
  induction n generalizing seen with
  | zero => exact cuts_fail _
  | succ n ih =>
    unfold readTaskEntries
    refine (cuts_skipWhile _).bind fun _ _ => (cuts_accept _).bind fun closed _ => ?_
    split
    · exact cuts_nil rfl
    · refine cuts_line.bind fun line _ => cuts_readTaskKey.bind fun key _ => ?_
      refine cuts_failIf _ ((cuts_mark _ _).bind fun _ _ => ?_)
      refine (cuts_invocation hcode).bind fun call hcall => cuts_get fun c => ?_
      refine cuts_failUnless _ ((ih _).bind fun entries hentries => cuts_pure ?_)
      rw [List.flatMap_cons, List.forall_mem_append]
      exact ⟨hcall, hentries⟩

theorem cuts_readTaskBlock : Cuts text code readTaskBlock Kind.expressions := by
  unfold readTaskBlock
  refine (cuts_name _).bind fun target _ => (cuts_mark _ _).bind fun _ _ => cuts_get fun c => ?_
  exact (cuts_readTaskEntries hcode _ _).bind fun tasks h => cuts_pure h

theorem cuts_readReturn : Cuts text code readReturn Kind.expressions := by
  unfold readReturn
  refine cuts_get fun c => ?_
  split
  · exact cuts_nil rfl
  · exact (cuts_restOfStatement hcode _).bind fun value h => cuts_pure h

/-! ## Statements with a block -/

variable {block : Terminator → Reading (List Statement)}
  (hblock : ∀ terminator, Cuts text code (block terminator) expressionsOf)
include hblock

omit hcode in
theorem cuts_braced : Cuts text code (braced block) expressionsOf := by
  unfold braced
  refine (cuts_mark _ _).bind fun _ _ => (hblock _).bind fun body h => ?_
  exact (cuts_mark _ _).bind fun _ _ => cuts_pure h

theorem cuts_readElse (n : Nat) : Cuts text code (readElse block n) expressionsOf := by
  induction n with
  | zero => exact cuts_nil rfl
  | succ n ih =>
    unfold readElse
    refine fun c hc => takes_get ?_
    dsimp only
    split
    · have hp : c.Passes _ ((c.skipWhile Token.isLineEnd).advance 1) :=
        (Cursor.Passes.advance c _).trans (.advance _ 1)
      refine (takes_set hp).bind fun _ _ c' hp' _ => ?_
      refine Cuts.bind (E := fun _ => []) (cuts_acceptKeyword _) (fun found _ => ?_) c'
        (hc.passes hp')
      split
      · refine (cuts_parenthesized hcode _).bind fun condition hcond => ?_
        refine (cuts_braced hblock).bind fun body hbody => ih.bind fun more hmore => cuts_pure ?_
        simp only [expressionsOf, expressions_ofBlock, List.forall_mem_append]
        exact ⟨⟨hcond, hbody⟩, hmore⟩
      · refine (cuts_braced hblock).bind fun body hbody => cuts_pure ?_
        simp only [expressionsOf, expressions_ofBlock, List.append_nil]
        exact hbody
    · exact takes_pure (List.forall_mem_nil _)

theorem cuts_readConditional (line : Nat) :
    Cuts text code (readConditional block line) expressions := by
  unfold readConditional
  refine (cuts_parenthesized hcode _).bind fun condition hcond => ?_
  refine (cuts_braced hblock).bind fun body hbody => cuts_get fun c => ?_
  refine (cuts_readElse hcode hblock _).bind fun more hmore => cuts_pure ?_
  simp only [expressionsOf, expressions_ofBlock, List.forall_mem_append]
  exact ⟨List.forall_mem_nil _, ⟨hcond, hbody⟩, hmore⟩

theorem cuts_readArms (n : Nat) : Cuts text code (readArms block n) expressionsOf := by
  induction n with
  | zero => exact cuts_fail _
  | succ n ih =>
    unfold readArms
    refine (cuts_skipWhile _).bind fun _ _ => (cuts_accept _).bind fun closed _ => ?_
    split
    · exact cuts_nil rfl
    refine cuts_line.bind fun line _ => (cuts_acceptKeyword _).bind fun isCase _ => ?_
    split
    · refine (cuts_expression hcode _ _).bind fun value hvalue => ?_
      refine (cuts_mark _ _).bind fun _ _ => (hblock _).bind fun body hbody => ?_
      refine ih.bind fun more hmore => cuts_pure ?_
      simp only [expressionsOf, expressions_ofBlock, List.forall_mem_append]
      exact ⟨⟨hvalue, hbody⟩, hmore⟩
    refine (cuts_acceptKeyword _).bind fun isDefault _ => ?_
    split
    · refine (cuts_mark _ _).bind fun _ _ => (hblock _).bind fun body hbody => ?_
      refine ih.bind fun more hmore => cuts_pure ?_
      simp only [expressionsOf, expressions_ofBlock, List.forall_mem_append]
      exact ⟨⟨List.forall_mem_nil _, hbody⟩, hmore⟩
    · exact cuts_fail _

theorem cuts_readSwitch (line : Nat) : Cuts text code (readSwitch block line) expressions := by
  unfold readSwitch
  refine (cuts_parenthesized hcode _).bind fun subject hsubject => ?_
  refine (cuts_mark _ _).bind fun _ _ => cuts_get fun c => ?_
  refine (cuts_readArms hcode hblock _).bind fun arms harms => cuts_pure ?_
  simp only [expressions_ofBlock, List.forall_mem_append]
  exact ⟨hsubject, harms⟩

omit hblock in
/-- Both ends of a range are balanced on their own. -/
theorem cuts_readIterable : Cuts text code readIterable Iterable.expressions := by
  intro c hc
  unfold readIterable
  refine (takes_expressionTokens hcode hc _).bind fun tokens used c' hp h => ?_
  obtain ⟨rfl, hrow, hencl, -⟩ := h
  have hsource := (hc.passes hp).source
  split
  · rename_i before inclusive after hsplit
    obtain ⟨⟨t, rfl⟩, hbefore, -, hafter⟩ :=
      Token.encloses_splitRange? hencl Token.rooted_nil hsplit
    refine (takes_sourceOf _ _).bind fun start _ c'' hp' hstart => ?_
    refine (takes_sourceOf _ _).bind fun stop _ _ _ hstop => takes_pure ?_
    rw [hsource] at hstart
    rw [hp'.source, hsource] at hstop
    have hstartCut : IsCut text code start :=
      ⟨before, (List.prefix_append _ _).isInfix.trans hrow, hbefore.nest, hstart.2⟩
    have hstopCut : IsCut text code stop :=
      ⟨after, .trans ⟨before ++ [t], [], by simp⟩ hrow, hafter.nest, hstop.2⟩
    exact List.forall_mem_cons.mpr ⟨hstartCut, List.forall_mem_singleton.mpr hstopCut⟩
  · refine (takes_sourceOf _ _).bind fun e _ _ _ he => takes_pure ?_
    rw [hsource] at he
    exact List.forall_mem_singleton.mpr ⟨_, hrow, hencl.nest, he.2⟩

theorem cuts_readFor (line : Nat) : Cuts text code (readFor block line) expressions := by
  unfold readFor
  refine (cuts_name _).bind fun variable_ _ => (cuts_keyword _).bind fun _ _ => ?_
  refine (cuts_readIterable hcode).bind fun iterable hiter => ?_
  refine (cuts_braced hblock).bind fun body hbody => cuts_pure ?_
  simp only [expressions_ofBlock, List.forall_mem_append]
  exact ⟨hiter, hbody⟩

theorem cuts_readWhile (line : Nat) : Cuts text code (readWhile block line) expressions := by
  unfold readWhile
  refine (cuts_parenthesized hcode _).bind fun condition hcond => ?_
  refine (cuts_braced hblock).bind fun body hbody => cuts_pure ?_
  simp only [expressions_ofBlock, List.forall_mem_append]
  exact ⟨hcond, hbody⟩

omit hcode hblock in
theorem cuts_readParameters (n : Nat) (seen : List String) :
    Cuts text code (readParameters n seen) fun _ => [] := by
  induction n generalizing seen with
  | zero => exact cuts_fail _
  | succ n ih =>
    unfold readParameters
    refine (cuts_name _).bind fun param _ => cuts_failIf _ ((cuts_accept _).bind fun found _ => ?_)
    split
    · exact (ih _).bind fun _ _ => cuts_nil rfl
    · exact (cuts_mark _ _).bind fun _ _ => cuts_nil rfl

omit hcode in
theorem cuts_readFunction (line : Nat) :
    Cuts text code (readFunction block line) expressions := by
  unfold readFunction
  refine (cuts_name _).bind fun name _ => (cuts_mark _ _).bind fun _ _ => ?_
  refine (cuts_accept _).bind fun closed _ => ?_
  refine .join (E := fun _ => []) (cuts_nil rfl) (cuts_get fun c => cuts_readParameters _ _)
    fun params _ => (cuts_braced hblock).bind fun body hbody => cuts_pure ?_
  rw [expressions_ofBlock]
  exact hbody

/-! ## Whole scripts -/

theorem cuts_afterKeyword? {line : Nat} {word : Keyword} {rule : Reading Statement}
    (h : afterKeyword? block line word = some rule) : Cuts text code rule expressions := by
  have hline {r : Reading Kind} (hr : Cuts text code r Kind.expressions) :
      Cuts text code ((ofLine · line) <$> r) expressions :=
    hr.map fun kind => expressions_ofLine kind line
  cases word <;> cases h
  case import_ => exact hline cuts_readImport
  case declare => exact hline (cuts_readDeclare hcode)
  case run =>
    refine (cuts_invocation hcode).bind fun call hcall => cuts_pure ?_
    rw [expressions_ofLine]
    exact hcall
  case task => exact hline (cuts_readTaskBlock hcode)
  case export_ =>
    refine (cuts_restOfStatement hcode _).bind fun value hvalue => cuts_pure ?_
    rw [expressions_ofLine]
    exact hvalue
  case echo =>
    refine (cuts_restOfStatement hcode _).bind fun value hvalue => cuts_pure ?_
    rw [expressions_ofLine]
    exact hvalue
  case if_ => exact cuts_readConditional hcode hblock line
  case switch => exact cuts_readSwitch hcode hblock line
  case for_ => exact cuts_readFor hcode hblock line
  case while_ => exact cuts_readWhile hcode hblock line
  case break_ => exact cuts_nil rfl
  case breakAll => exact cuts_nil rfl
  case continue_ => exact cuts_nil rfl
  case return_ => exact hline (cuts_readReturn hcode)
  case function => exact cuts_readFunction hblock line

theorem cuts_rule? {c : Cursor} {label : String} {rule : Reading Statement}
    (h : rule? block c = some (label, rule)) : Cuts text code rule expressions := by
  have hassign : Cuts text code ((ofLine · c.line) <$> readAssign) expressions :=
    (cuts_readAssign hcode).map fun kind => expressions_ofLine kind c.line
  unfold rule? at h
  split at h
  · obtain ⟨rule, hrule, hpair⟩ := Option.map_eq_some_iff.mp h
    cases hpair
    rw [seqRight_eq_bind]
    exact (cuts_advance 1).bind fun _ _ => cuts_afterKeyword? hcode hblock hrule
  · split at h
    · cases h
      exact hassign
    · split at h
      · cases h
        refine (cuts_invocation hcode).bind fun call hcall => cuts_pure ?_
        rw [expressions_ofLine]
        exact hcall
      · cases h
  · split at h
    · cases h
      exact hassign
    · cases h
  · cases h

theorem cuts_readOne (token : Token) : Cuts text code (readOne block token) expressions := by
  unfold readOne
  refine cuts_get fun c => ?_
  split
  · exact cuts_fail _
  · rename_i label rule hrule
    refine (cuts_rule? hcode hblock hrule).bind fun statement h => ?_
    exact (cuts_endOf _).bind fun _ _ => cuts_pure h

omit hblock in
/-- The expressions at any depth of the statements that are read are cut from the tokens. -/
theorem cuts_readList (n : Nat) (terminator : Terminator) :
    Cuts text code (readList n terminator) expressionsOf := by
  induction n generalizing terminator with
  | zero => exact cuts_fail _
  | succ n ih =>
    unfold readList
    refine (cuts_skipWhile _).bind fun _ _ => cuts_get fun c => ?_
    split
    · split
      · exact cuts_nil rfl
      · exact cuts_fail _
    · split
      · exact cuts_nil rfl
      split
      · exact cuts_fail _
      refine (cuts_readOne hcode ih _).bind fun statement hs => (ih _).bind fun more hm => ?_
      refine cuts_pure ?_
      simp only [expressionsOf, List.forall_mem_append]
      exact ⟨hs, hm⟩

end

end Statement

end PipelineScript
