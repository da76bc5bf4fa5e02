import Mathlib
import PipelineScript.Proofs.Guarded.Spans

/-! # Following the rules for statements

Every rule follows its reading, through the end of its statement, if the parser of blocks follows
the reading of blocks behind the place (`statement_follows`). What it reads has at least one token.
So there are turns enough for a whole text (`parse_eq`). -/

namespace PipelineScript.Parsing

open Guarded

variable {text : List Char} {tokens : List Token} {α β : Type} {low place : Nat}

/-! ## Statements on a line -/

theorem importPath_follows (h : place ≤ tokens.length) :
    Follows text tokens place place (importPath tokens) Statement.readImport := by
  unfold importPath Statement.readImport
  refine (dottedName_follows h _).bind fun path next _ hplace hnext => ?_
  refine (acceptKeyword_follows hnext _).bind fun found next₁ _ hplace₁ hnext₁ => ?_
  have hname : Follows text tokens next₁ next₁ (name tokens "an import alias")
      (Reading.name "an import alias") := (name_follows hnext₁ _).mono (Nat.le_succ _)
  refine hname.join (.pure _ (Nat.le_refl _) hnext₁) fun localName last _ hplace₂ hlast => ?_
  exact .pure _ (by omega) hlast

variable (hp : Placed text tokens)
include hp

theorem declare_follows (h : place ≤ tokens.length) :
    Follows text tokens place place (declare text tokens) Statement.readDeclare := by
  unfold declare Statement.readDeclare
  refine (name_follows h _).bind fun name next _ hplace hnext => ?_
  refine (accept_follows hnext _).bind fun typed next₁ _ hplace₁ hnext₁ => ?_
  have htype : Follows text tokens next₁ next₁ (some <$> dottedName tokens "a type name")
      (some <$> Reading.dottedName "a type name") :=
    ((dottedName_follows hnext₁ _).mono (Nat.le_succ _)).map some
  refine htype.join (.pure _ (Nat.le_refl _) hnext₁) fun declaredType next₂ _ hplace₂ hnext₂ => ?_
  refine (accept_follows hnext₂ _).bind fun filled next₃ _ hplace₃ hnext₃ => ?_
  have hvalue : Follows text tokens next₃ next₃ (some <$> stored text tokens)
      (some <$> Statement.readSource) :=
    ((hp.stored_follows hnext₃).mono (Nat.le_succ _)).map some
  refine hvalue.join (.pure _ (Nat.le_refl _) hnext₃) fun value last _ hplace₄ hlast => ?_
  exact .pure _ (by omega) hlast

theorem assign_follows (h : place ≤ tokens.length) :
    Follows text tokens (place + 1) place (assign text tokens) Statement.readAssign := by
  unfold assign Statement.readAssign
  refine (name_follows h _).bind fun name next hlow _ hnext => ?_
  refine (mark_follows hnext _ _).bind fun _ next₁ _ hplace₁ hnext₁ => ?_
  exact (hp.stored_follows hnext₁).bind fun value last _ hplace₂ hlast => .pure _ (by omega) hlast

omit hp in
theorem taskKey_follows (h : place ≤ tokens.length) :
    Follows text tokens (place + 1) place (taskKey tokens) Statement.readTaskKey := by
  unfold taskKey Statement.readTaskKey
  refine peek_bind (get_bind ?_)
  rw [head?_standing]
  cases ht : tokens[place]? with
  | none => exact fail_follows h _
  | some t =>
    have hlt := lt_of_token ht
    obtain ⟨lexeme, _, _, _⟩ := t
    cases lexeme with
    | ident key | str key => exact move_bind (.pure key (Nat.le_refl _) hlt)
    | _ => exact fail_follows h _

theorem taskEntries_follows {turns fuel : Nat} (seen : List String) (h : place ≤ tokens.length)
    (hturns : tokens.length - place < turns) (hfuel : tokens.length - place ≤ fuel) :
    Follows text tokens place place (taskEntries text tokens turns seen)
      (Statement.readTaskEntries fuel seen) := by
  induction turns generalizing place fuel seen with
  | zero => exact absurd hturns (Nat.not_lt_zero _)
  | succ turns ih =>
    refine .turn (r := (Statement.readTaskEntries · seen)) h hfuel (fun _ => rfl)
      fun fuel hfuel => ?_
    unfold taskEntries Statement.readTaskEntries
    refine (skipWhile_follows h _).bind fun _ next _ hplace hnext => ?_
    refine accept_bind (fun hlt => .pure _ (by omega) hlt) ?_
    refine (line_follows hnext).bind fun line next₁ _ hplace₁ hnext₁ => ?_
    refine (taskKey_follows hnext₁).bind fun key next₂ _ hplace₂ hnext₂ => ?_
    refine .failIf hnext₂ _ ?_
    refine (mark_follows hnext₂ _ _).bind fun _ next₃ _ hplace₃ hnext₃ => ?_
    refine (hp.invocation_follows hnext₃).bind fun call next₄ _ hplace₄ hnext₄ => ?_
    refine atEnd_bind (peek_bind (get_bind ?_))
    rw [Cursor.isAtMark, head?_standing]
    refine .failUnless hnext₄ _ ?_
    refine (ih _ hnext₄ (by omega) (by omega)).bind fun more last _ hplace₅ hlast => ?_
    exact .pure _ (by omega) hlast

theorem taskBlock_follows (h : place ≤ tokens.length) :
    Follows text tokens place place (taskBlock text tokens) Statement.readTaskBlock := by
  unfold taskBlock Statement.readTaskBlock
  refine (name_follows h _).bind fun target next _ hplace hnext => ?_
  refine (mark_follows hnext _ _).bind fun _ next₁ _ hplace₁ hnext₁ => get_bind ?_
  exact (taskEntries_follows hp [] hnext₁ (lt_turns next₁) length_ahead.ge).bind
    fun tasks last _ hplace₂ hlast => .pure _ (by omega) hlast

theorem returnValue_follows (h : place ≤ tokens.length) :
    Follows text tokens place place (returnValue text tokens) Statement.readReturn := by
  unfold returnValue Statement.readReturn
  refine atEnd_bind (get_bind ?_)
  split
  · exact .pure _ (Nat.le_refl _) h
  · exact (hp.restOfStatement_follows h _).bind fun e next _ hplace hnext => .pure _ hplace hnext

/-! ## Ranges -/

omit hp in
theorem zipIdx_between (start stop : Nat) :
    (tokens.zipIdx.take stop).drop start = (between tokens start stop).zipIdx start := by
  refine List.ext_getElem? fun i => ?_
  rw [List.getElem?_drop, List.getElem?_take, List.getElem?_zipIdx, List.getElem?_zipIdx, between,
    List.getElem?_drop, List.getElem?_take]
  by_cases hi : start + i < stop
  · rw [if_pos hi, if_pos hi, Nat.zero_add]
  · rw [if_neg hi, if_neg hi]
    rfl

omit hp in
/-- Both find the first range operator, or none. -/
theorem rangePlace?_eq (depth start : Nat) (row : List Token) :
    rangePlace? depth (row.zipIdx start) = none ∧ Token.splitRange? depth row = none ∨
      ∃ before op after, row = before ++ op :: after ∧
        rangePlace? depth (row.zipIdx start) = some (start + before.length) ∧
        Token.splitRange? depth row = some (before, op.isPunct .rangeThrough, after) := by
  induction row generalizing depth start with
  | nil => exact .inl ⟨rfl, rfl⟩
  | cons t row ih =>
    by_cases hop : depth = 0 ∧ (t.isPunct .rangeThrough || t.isPunct .rangeBelow) = true
    · have hplain : t.opens = false ∧ t.closes = false := by
        rcases Bool.or_eq_true_iff.mp hop.2 with ht | ht <;>
          simp [Token.opens, Token.closes, Token.isPunct, of_decide_eq_true ht]
      refine .inr ⟨[], t, row, rfl, ?_, if_pos hop⟩
      rw [List.zipIdx_cons, rangePlace?, hplain.1, hplain.2, if_neg Bool.false_ne_true,
        if_neg Bool.false_ne_true, if_pos hop]
      rfl
    · have hplace : rangePlace? depth ((t :: row).zipIdx start) =
          rangePlace? (t.depthAfter depth) (row.zipIdx (start + 1)) := by
        rw [List.zipIdx_cons, rangePlace?, if_neg hop, Token.depthAfter]
        split_ifs <;> rfl
      rw [hplace, Token.splitRange?, if_neg hop]
      obtain ⟨hnone, hnone'⟩ | ⟨before, op, after, rfl, hsome, hsome'⟩ :=
        ih (t.depthAfter depth) (start + 1)
      · exact .inl ⟨hnone, by rw [hnone']; rfl⟩
      · refine .inr ⟨t :: before, op, after, rfl, ?_, by rw [hsome']; rfl⟩
        rw [hsome, List.length_cons, Nat.add_assoc, Nat.add_comm 1]

omit hp in
/-- The tokens on both sides of one between two places. -/
theorem eq_between_of_split {start stop : Nat} {before after : List Token} {op : Token}
    (h : between tokens start stop = before ++ op :: after) :
    start + before.length < stop ∧ tokens[start + before.length]? = some op ∧
      before = between tokens start (start + before.length) ∧
      after = between tokens (start + before.length + 1) stop := by
  have hlen : start + before.length < stop := by
    have hle := congrArg List.length h
    rw [between, List.length_drop, List.length_take, List.length_append, List.length_cons] at hle
    omega
  have hahead : before ++ op :: after <+: tokens.drop start := by
    rw [← h, between, List.drop_take]
    exact List.take_prefix ..
  refine ⟨hlen, ?_, ?_, ?_⟩
  · obtain ⟨rest, hrest⟩ := hahead
    rw [← List.getElem?_drop, ← hrest, List.append_assoc,
      List.getElem?_append_right (Nat.le_refl _), Nat.sub_self]
    rfl
  · rw [between_eq]
    exact List.prefix_iff_eq_take.mp ((List.prefix_append ..).trans hahead)
  · rw [between, Nat.add_assoc, ← List.drop_drop, ← between, h, ← List.drop_drop, List.drop_left]
    rfl

theorem iterable_follows (h : place ≤ tokens.length) :
    Follows text tokens place place (iterable text tokens) Statement.readIterable := by
  unfold iterable Statement.readIterable
  refine .step (expressionPlaces_eq _) (expressionTokens_eq _) (Nat.le_add_right _ _) ?_
  have hstop := expressionLength_le (fun _ => false) h
  generalize hlast : place + Token.expressionLength _ 0 (tokens.drop place) = stop at hstop ⊢
  have hle : place ≤ stop := hlast ▸ Nat.le_add_right _ _
  dsimp only
  rw [zipIdx_between]
  obtain ⟨hnone, hnone'⟩ | ⟨before, op, after, hrow, hsome, hsome'⟩ :=
    rangePlace?_eq 0 place (between tokens place stop)
  · rw [hnone, hnone']
    exact hp.sourceBetween_bind hstop hstop fun _ e => .pure _ hle hstop
  · obtain ⟨hlt, hop, hbefore, hafter⟩ := eq_between_of_split hrow
    rw [hsome, hsome']
    generalize place + before.length = middle at hlt hop hbefore hafter ⊢
    subst hbefore hafter
    dsimp only
    refine hp.sourceBetween_bind hstop (by omega) fun _ first => ?_
    refine hp.sourceBetween_bind hstop hstop fun _ last => ?_
    exact .of_eq (.pure _ hle hstop) (bind_of_ok (at_eq hop)) rfl

/-! ## Statements with a block -/

/-- Behind a place, the parser of blocks follows the reading of blocks. -/
def BlocksFollow (text : List Char) (tokens : List Token) (place : Nat)
    (block : Terminator → Parsing (List Statement))
    (block' : Terminator → Reading (List Statement)) : Prop :=
  ∀ terminator next, place < next → next ≤ tokens.length →
    Follows text tokens next next (block terminator) (block' terminator)

variable {block : Terminator → Parsing (List Statement)}
  {block' : Terminator → Reading (List Statement)}

omit hp in
theorem BlocksFollow.onward {next : Nat} (hb : BlocksFollow text tokens place block block')
    (hle : place ≤ next) : BlocksFollow text tokens next block block' :=
  fun terminator last hlt => hb terminator last (Nat.lt_of_le_of_lt hle hlt)

omit hp in
theorem braced_follows (hb : BlocksFollow text tokens place block block')
    (h : place ≤ tokens.length) :
    Follows text tokens (place + 1) place (braced tokens block) (Statement.braced block') := by
  unfold braced Statement.braced
  refine (mark_follows h _ _).bind fun _ next hlow _ hnext => ?_
  refine (hb .closeBrace next hlow hnext).bind fun body next₁ _ hplace₁ hnext₁ => ?_
  exact (mark_follows hnext₁ _ _).bind fun _ last _ hplace₂ hlast => .pure _ (by omega) hlast

omit hp in
/-- An `else` is found by both, or by neither. -/
theorem elseLine?_eq (text : List Char) (tokens : List Token) (place : Nat) :
    elseLine? tokens place = .ok (none, place) ∧
        ((standing text tokens place).skipWhile Token.isLineEnd).isAtKeyword .else_ = false ∨
      ∃ next, place < next ∧ next ≤ tokens.length ∧
        elseLine? tokens place =
          .ok (some ((standing text tokens place).skipWhile Token.isLineEnd).line, next) ∧
        ((standing text tokens place).skipWhile Token.isLineEnd).isAtKeyword .else_ = true ∧
        ((standing text tokens place).skipWhile Token.isLineEnd).advance 1 =
          standing text tokens next := by
  have hskip : (standing text tokens place).skipWhile Token.isLineEnd =
      standing text tokens (place + ((tokens.drop place).takeWhile Token.isLineEnd).length) :=
    advance_standing _
  have hlook : lookAhead (skipWhile tokens Token.isLineEnd) place =
      .ok (some ((), place + ((tokens.drop place).takeWhile Token.isLineEnd).length), place) := by
    rw [lookAhead, skipWhile, passWhile_eq _ (lt_turns place)]
  have hparse : elseLine? tokens place = _ := bind_of_ok hlook
  have hle : place ≤ place + ((tokens.drop place).takeWhile Token.isLineEnd).length :=
    Nat.le_add_right _ _
  rw [hskip, hparse, Cursor.isAtKeyword, head?_standing, advance_standing]
  generalize place + ((tokens.drop place).takeWhile Token.isLineEnd).length = onward at hle ⊢
  dsimp only
  cases helse : tokens[onward]?.any fun t => t.isKeyword .else_ with
  | false => exact .inl ⟨rfl, rfl⟩
  | true =>
    obtain ⟨t, ht, -⟩ := (Option.any_eq_true _ _).mp helse
    have hlt := lt_of_token ht
    refine .inr ⟨onward + 1, by omega, hlt, ?_, rfl, rfl⟩
    rw [if_pos rfl]
    show (line tokens >>= fun line => advance tokens >>= fun _ => pure (some line)) onward = _
    rw [bind_of_ok line_standing, bind_of_ok (advance_eq ht)]
    rfl

theorem furtherArms_follows {turns fuel : Nat} (hb : BlocksFollow text tokens place block block')
    (h : place ≤ tokens.length) (hturns : tokens.length - place < turns)
    (hfuel : tokens.length - place ≤ fuel) :
    Follows text tokens place place (furtherArms text tokens block turns)
      (Statement.readElse block' fuel) := by
  induction turns generalizing place fuel with
  | zero => exact absurd hturns (Nat.not_lt_zero _)
  | succ turns ih =>
    refine .turn h hfuel (fun _ => rfl) fun fuel hfuel => ?_
    unfold furtherArms Statement.readElse
    refine get_bind ?_
    dsimp only
    obtain ⟨helse, hat⟩ | ⟨next, hplace, hnext, helse, hat, honward⟩ :=
      elseLine?_eq text tokens place
    · rw [hat, if_neg Bool.false_ne_true]
      exact (Follows.pure _ (Nat.le_refl _) h).of_eq (bind_of_ok helse) rfl
    · rw [hat, if_pos rfl, honward]
      refine Follows.step (b := ()) helse rfl (Nat.le_of_lt hplace) ?_
      refine (acceptKeyword_follows hnext _).bind fun found next₁ _ hplace₁ hnext₁ => ?_
      split
      · refine (hp.parenthesized_follows hnext₁ _).bind fun condition next₂ _ hplace₂ hnext₂ => ?_
        refine (braced_follows (hb.onward (by omega)) hnext₂).bind
          fun body next₃ _ hplace₃ hnext₃ => ?_
        exact (ih (hb.onward (by omega)) hnext₃ (by omega) (by omega)).bind
          fun more last _ hplace₄ hlast => .pure _ (by omega) hlast
      · exact (braced_follows (hb.onward (by omega)) hnext₁).bind
          fun body last _ hplace₂ hlast => .pure _ (by omega) hlast

theorem conditional_follows (hb : BlocksFollow text tokens place block block')
    (h : place ≤ tokens.length) (line : Nat) :
    Follows text tokens place place (conditional text tokens block line)
      (Statement.readConditional block' line) := by
  unfold conditional Statement.readConditional
  refine (hp.parenthesized_follows h _).bind fun condition next _ hplace hnext => ?_
  refine (braced_follows (hb.onward hplace) hnext).bind fun body next₁ _ hplace₁ hnext₁ => ?_
  refine get_bind ?_
  exact (furtherArms_follows hp (hb.onward (by omega)) hnext₁ (lt_turns next₁) length_ahead.ge).bind
    fun more last _ hplace₂ hlast => .pure _ (by omega) hlast

theorem switchArms_follows {turns fuel : Nat} (hb : BlocksFollow text tokens place block block')
    (h : place ≤ tokens.length) (hturns : tokens.length - place < turns)
    (hfuel : tokens.length - place ≤ fuel) :
    Follows text tokens place place (switchArms text tokens block turns)
      (Statement.readArms block' fuel) := by
  induction turns generalizing place fuel with
  | zero => exact absurd hturns (Nat.not_lt_zero _)
  | succ turns ih =>
    refine .turn h hfuel (fun _ => rfl) fun fuel hfuel => ?_
    unfold switchArms Statement.readArms
    refine (skipWhile_follows h _).bind fun _ next _ hplace hnext => ?_
    refine accept_bind (fun hlt => .pure _ (by omega) hlt) ?_
    refine (line_follows hnext).bind fun line next₁ _ hplace₁ hnext₁ => ?_
    refine acceptKeyword_bind (fun hlt => ?_) (acceptKeyword_bind (fun hlt => ?_) ?_)
    · refine (hp.expression_follows hlt _ _).bind fun value next₂ _ hplace₂ hnext₂ => ?_
      refine (mark_follows hnext₂ _ _).bind fun _ next₃ _ hplace₃ hnext₃ => ?_
      refine (hb .nextArm next₃ (by omega) hnext₃).bind fun body next₄ _ hplace₄ hnext₄ => ?_
      exact (ih (hb.onward (by omega)) hnext₄ (by omega) (by omega)).bind
        fun more last _ hplace₅ hlast => .pure _ (by omega) hlast
    · refine (mark_follows hlt _ _).bind fun _ next₂ _ hplace₂ hnext₂ => ?_
      refine (hb .nextArm next₂ (by omega) hnext₂).bind fun body next₃ _ hplace₃ hnext₃ => ?_
      exact (ih (hb.onward (by omega)) hnext₃ (by omega) (by omega)).bind
        fun more last _ hplace₄ hlast => .pure _ (by omega) hlast
    · exact fail_follows hnext₁ _

theorem switch_follows (hb : BlocksFollow text tokens place block block')
    (h : place ≤ tokens.length) (line : Nat) :
    Follows text tokens place place (switch text tokens block line)
      (Statement.readSwitch block' line) := by
  unfold switch Statement.readSwitch
  refine (hp.parenthesized_follows h _).bind fun subject next _ hplace hnext => ?_
  refine (mark_follows hnext _ _).bind fun _ next₁ _ hplace₁ hnext₁ => get_bind ?_
  exact (switchArms_follows hp (hb.onward (by omega)) hnext₁ (lt_turns next₁) length_ahead.ge).bind
    fun arms last _ hplace₂ hlast => .pure _ (by omega) hlast

theorem forLoop_follows (hb : BlocksFollow text tokens place block block')
    (h : place ≤ tokens.length) (line : Nat) :
    Follows text tokens place place (forLoop text tokens block line)
      (Statement.readFor block' line) := by
  unfold forLoop Statement.readFor
  refine (name_follows h _).bind fun variable_ next _ hplace hnext => ?_
  refine (keyword_follows hnext _).bind fun _ next₁ _ hplace₁ hnext₁ => ?_
  refine (iterable_follows hp hnext₁).bind fun iterable next₂ _ hplace₂ hnext₂ => ?_
  exact (braced_follows (hb.onward (by omega)) hnext₂).bind fun body last _ hplace₃ hlast =>
    .pure _ (by omega) hlast

theorem whileLoop_follows (hb : BlocksFollow text tokens place block block')
    (h : place ≤ tokens.length) (line : Nat) :
    Follows text tokens place place (whileLoop text tokens block line)
      (Statement.readWhile block' line) := by
  unfold whileLoop Statement.readWhile
  refine (hp.parenthesized_follows h _).bind fun condition next _ hplace hnext => ?_
  exact (braced_follows (hb.onward hplace) hnext).bind fun body last _ hplace₁ hlast =>
    .pure _ (by omega) hlast

omit hp in
theorem parameters_follows {turns fuel : Nat} (seen : List String) (h : place ≤ tokens.length)
    (hturns : tokens.length - place < turns) (hfuel : tokens.length - place ≤ fuel) :
    Follows text tokens place place (parameters tokens turns seen)
      (Statement.readParameters fuel seen) := by
  induction turns generalizing place fuel seen with
  | zero => exact absurd hturns (Nat.not_lt_zero _)
  | succ turns ih =>
    refine .turn (r := (Statement.readParameters · seen)) h hfuel (fun _ => rfl)
      fun fuel hfuel => ?_
    unfold parameters Statement.readParameters
    refine (name_follows h _).bind fun param next _ hplace hnext => .failIf hnext _ ?_
    refine accept_bind (fun hlt => ?_) ?_
    · exact (ih _ hlt (by omega) (by omega)).bind fun more last _ hplace₁ hlast =>
        .pure _ (by omega) hlast
    · exact (mark_follows hnext _ _).bind fun _ last _ hplace₁ hlast => .pure _ (by omega) hlast

omit hp in
theorem function_follows (hb : BlocksFollow text tokens place block block')
    (h : place ≤ tokens.length) (line : Nat) :
    Follows text tokens place place (function tokens block line)
      (Statement.readFunction block' line) := by
  unfold function Statement.readFunction
  refine (name_follows h _).bind fun name next _ hplace hnext => ?_
  refine (mark_follows hnext _ _).bind fun _ next₁ _ hplace₁ hnext₁ => ?_
  refine (accept_follows hnext₁ _).bind fun empty next₂ _ hplace₂ hnext₂ => ?_
  have hparams : Follows text tokens next₂ next₂ (parameters tokens (turns tokens) [])
      (do Statement.readParameters (← get).ahead.length []) :=
    get_bind (parameters_follows [] hnext₂ (lt_turns next₂) length_ahead.ge)
  refine (Follows.pure _ (Nat.le_refl _) hnext₂).join hparams
    fun params next₃ _ hplace₃ hnext₃ => ?_
  exact (braced_follows (hb.onward (by omega)) hnext₃).bind fun body last _ hplace₄ hlast =>
    .pure _ (by omega) hlast

/-! ## The choice of a rule -/

omit hp in
/-- A statement and its end. -/
theorem ended_follows {read : Nat → Parsing Statement} {rule : Reading Statement} (label : String)
    (h : Follows text tokens low place (read (standing text tokens place).line) rule) :
    Follows text tokens low place (ended tokens label read)
      (do let statement ← rule; Reading.endOf label; return statement) := by
  unfold ended
  refine line_bind (h.bind fun statement next hlow _ hnext => ?_)
  exact (endOf_follows hnext label).bind fun _ last _ hplace hlast => .pure _ (by omega) hlast

omit hp in
theorem bind_get {f : Cursor → Reading α} {c : Cursor} :
    ((get : Reading Cursor) >>= f) c = f c c := rfl

omit hp in
theorem readOne_eq {t : Token} {label : String} {rule : Reading Statement} {c : Cursor}
    (h : Statement.rule? block' c = some (label, rule)) :
    Statement.readOne block' t c =
      (do let statement ← rule; Reading.endOf label; return statement : Reading Statement) c := by
  unfold Statement.readOne
  rw [bind_get, h]

omit hp in
theorem rule?_of_keyword (text : List Char) (block' : Terminator → Reading (List Statement))
    {t : Token} {word : Keyword} (ht : tokens[place]? = some t) (hword : t.isKeyword word = true) :
    Statement.rule? block' (standing text tokens place) =
      (Statement.afterKeyword? block' (standing text tokens place).line word).map
        fun rule => (word.text, Reading.advance 1 *> rule) := by
  rw [Statement.rule?, head?_standing, ht, Option.map_some, of_decide_eq_true hword]

omit hp in
/-- A statement that begins with a keyword. -/
theorem keywordRule_follows {t : Token} {word : Keyword} {rule : Reading Statement}
    {read : Nat → Parsing Statement} (ht : tokens[place]? = some t)
    (happlies : (Rule.ofKeyword tokens word read).applies place = true)
    (hrule : Statement.afterKeyword? block' (standing text tokens place).line word = some rule)
    (h : Follows text tokens (place + 1) (place + 1) (read (standing text tokens place).line)
      rule) :
    Follows text tokens (place + 1) place (Rule.ofKeyword tokens word read).parse
      (Statement.readOne block' t) := by
  have hword : (tokens[place]?.any fun t => t.isKeyword word) = true := happlies
  rw [ht] at hword
  have hrule? := rule?_of_keyword text block' ht hword
  rw [hrule] at hrule?
  refine (ended_follows word.text ?_).of_eq rfl (readOne_eq hrule?)
  rw [seqRight_eq_bind]
  exact advance_bind ht h

omit hp in
theorem loopControl_follows {t : Token} (ht : tokens[place]? = some t)
    (happlies : isLoopControl t = true) :
    Follows text tokens (place + 1) place (loopControl tokens) (Statement.readOne block' t) := by
  have hfollows {word : Keyword} {kind : Kind} (hword : t.isKeyword word = true)
      (hloop : loopControl? (some t) = (kind, word.text))
      (hrule : Statement.afterKeyword? block' (standing text tokens place).line word =
        some (return .ofLine kind (standing text tokens place).line)) :
      Follows text tokens (place + 1) place (loopControl tokens) (Statement.readOne block' t) := by
    have hrule? := rule?_of_keyword text block' ht hword
    rw [hrule] at hrule?
    refine Follows.of_eq ?_ rfl (readOne_eq hrule?)
    rw [seqRight_eq_bind, bind_assoc]
    refine line_bind (advance_bind ht ?_)
    rw [hloop, pure_bind]
    exact (endOf_follows (lt_of_token ht) _).bind fun _ next hlow _ hnext => .pure _ hlow hnext
  obtain ⟨lexeme, line, start, stop⟩ := t
  rcases Bool.or_eq_true_iff.mp happlies with h | h
  · rcases Bool.or_eq_true_iff.mp h with h | h
    · obtain rfl : lexeme = .keyword .break_ := of_decide_eq_true h
      exact hfollows h rfl rfl
    · obtain rfl : lexeme = .keyword .breakAll := of_decide_eq_true h
      exact hfollows h rfl rfl
  · obtain rfl : lexeme = .keyword .continue_ := of_decide_eq_true h
    exact hfollows h rfl rfl

omit hp in
theorem second?_standing : (standing text tokens place).second? = tokens[place + 1]? := by
  rw [← head?_standing, ← advance_standing]
  rfl

theorem assignment_follows {t : Token} (ht : tokens[place]? = some t)
    (hfirst : (isName t || isSystemName t) = true)
    (hsecond : (tokens[place + 1]?.any fun t => t.isPunct .assign) = true) :
    Follows text tokens (place + 1) place
      (ended tokens "assignment" fun line => (.ofLine · line) <$> assign text tokens)
      (Statement.readOne block' t) := by
  have hrule : Statement.rule? block' (standing text tokens place) =
      some ("assignment",
        (.ofLine · (standing text tokens place).line) <$> Statement.readAssign) := by
    rw [Statement.rule?, head?_standing, ht, second?_standing, hsecond]
    obtain ⟨lexeme, line, start, stop⟩ := t
    cases lexeme with
    | ident | systemIdent => rfl
    | _ => cases hfirst
  have hassign := assign_follows hp (Nat.le_of_lt (lt_of_token ht))
  exact (ended_follows "assignment" (hassign.map _)).of_eq rfl (readOne_eq hrule)

theorem call_follows {t : Token} (ht : tokens[place]? = some t) (hfirst : isName t = true)
    (hsecond : (tokens[place + 1]?.any fun t => t.isPunct .openParen) = true) :
    Follows text tokens (place + 1) place
      (ended tokens "call" fun line => return .ofLine (.call (← invocation text tokens)) line)
      (Statement.readOne block' t) := by
  have hcall : (standing text tokens place).isAtInvocation = true := by
    rw [isAtInvocation_standing, ht, Option.any_some, hfirst, hsecond]
    rfl
  have hassign : (tokens[place + 1]?.any fun t => t.isPunct .assign) = false := by
    obtain ⟨u, hu, hpunct⟩ := (Option.any_eq_true _ _).mp hsecond
    rw [hu, Option.any_some, Token.isPunct, of_decide_eq_true hpunct]
    rfl
  obtain ⟨name, hname⟩ := exists_name hfirst
  have hrule : Statement.rule? block' (standing text tokens place) =
      some ("call", do
        return .ofLine (.call (← Reading.invocation)) (standing text tokens place).line) := by
    rw [Statement.rule?, head?_standing, ht, Option.map_some, hname, second?_standing, hassign,
      hcall]
    rfl
  refine (ended_follows "call" ?_).of_eq rfl (readOne_eq hrule)
  exact (hp.invocation_follows (Nat.le_of_lt (lt_of_token ht))).bind fun call next hlow _ hnext =>
    .pure _ hlow hnext

theorem rule_follows (hb : BlocksFollow text tokens place block block') {t : Token}
    (ht : tokens[place]? = some t) {rule : Rule} (hrule : rule ∈ rules text tokens block)
    (happlies : rule.applies place = true) :
    Follows text tokens (place + 1) place rule.parse (Statement.readOne block' t) := by
  have hlt := lt_of_token ht
  unfold rules at hrule
  simp only [List.mem_cons, List.not_mem_nil, or_false] at hrule
  rcases hrule with rfl | rfl | rfl | rfl | rfl | rfl | rfl | rfl | rfl | rfl | rfl | rfl | rfl |
    rfl | rfl
  · exact keywordRule_follows ht happlies rfl ((importPath_follows hlt).map _)
  · exact keywordRule_follows ht happlies rfl ((declare_follows hp hlt).map _)
  · refine keywordRule_follows ht happlies rfl ?_
    exact (hp.invocation_follows hlt).bind fun call next _ hplace hnext => .pure _ hplace hnext
  · exact keywordRule_follows ht happlies rfl ((taskBlock_follows hp hlt).map _)
  · refine keywordRule_follows ht happlies rfl ?_
    exact (hp.restOfStatement_follows hlt _).bind fun e next _ hplace hnext => .pure _ hplace hnext
  · refine keywordRule_follows ht happlies rfl ?_
    exact (hp.restOfStatement_follows hlt _).bind fun e next _ hplace hnext => .pure _ hplace hnext
  · exact keywordRule_follows ht happlies rfl
      (conditional_follows hp (hb.onward (Nat.le_succ _)) hlt _)
  · exact keywordRule_follows ht happlies rfl
      (switch_follows hp (hb.onward (Nat.le_succ _)) hlt _)
  · exact keywordRule_follows ht happlies rfl
      (forLoop_follows hp (hb.onward (Nat.le_succ _)) hlt _)
  · exact keywordRule_follows ht happlies rfl
      (whileLoop_follows hp (hb.onward (Nat.le_succ _)) hlt _)
  · have hloop : tokens[place]?.any isLoopControl = true := happlies
    rw [ht] at hloop
    exact loopControl_follows ht hloop
  · exact keywordRule_follows ht happlies rfl ((returnValue_follows hp hlt).map _)
  · exact keywordRule_follows ht happlies rfl
      (function_follows (hb.onward (Nat.le_succ _)) hlt _)
  · obtain ⟨hfirst, hsecond⟩ := (Bool.and_eq_true _ _).mp happlies
    rw [ht] at hfirst
    exact assignment_follows hp ht hfirst hsecond
  · obtain ⟨hfirst, hsecond⟩ := (Bool.and_eq_true _ _).mp happlies
    rw [ht] at hfirst
    exact call_follows hp ht hfirst hsecond

omit hp in
/-- A rule applies only where there is a token. -/
theorem exists_token_of_applies {rule : Rule} (hrule : rule ∈ rules text tokens block)
    (happlies : rule.applies place = true) : ∃ t, tokens[place]? = some t := by
  cases ht : tokens[place]? with
  | some t => exact ⟨t, rfl⟩
  | none =>
    have hnone : ∀ rule ∈ rules text tokens block, rule.applies place = false := by
      unfold rules
      simp only [List.forall_mem_cons, Rule.ofKeyword, Rule.ofMark, ht]
      simp
    cases (hnone rule hrule).symm.trans happlies

omit hp in
/-- Where no rule applies, there is none to read by. -/
theorem rule?_of_forall_not (block' : Terminator → Reading (List Statement)) {t : Token}
    (ht : tokens[place]? = some t)
    (hnone : ∀ rule ∈ rules text tokens block, ¬ rule.applies place = true) :
    Statement.rule? block' (standing text tokens place) = none := by
  unfold rules at hnone
  simp only [List.forall_mem_cons, Rule.ofKeyword, Rule.ofMark, ht, Option.any_some] at hnone
  obtain ⟨lexeme, line, start, stop⟩ := t
  rw [Statement.rule?, head?_standing, ht, Option.map_some, second?_standing,
    isAtInvocation_standing, ht, Option.any_some]
  cases lexeme with
  | keyword word =>
    have hword : Statement.afterKeyword? block' (standing text tokens place).line word = none := by
      cases word <;> first | rfl | simp [Token.isKeyword, isLoopControl] at hnone
    dsimp only
    rw [hword]
    rfl
  | ident name =>
    obtain ⟨-, -, -, -, -, -, -, -, -, -, -, -, -, hassign, hcall, -⟩ := hnone
    rw [show (tokens[place + 1]?.any fun t => t.isPunct .assign) = false from
        Bool.eq_false_iff.mpr hassign,
      show (tokens[place + 1]?.any fun t => t.isPunct .openParen) = false from
        Bool.eq_false_iff.mpr hcall]
    rfl
  | systemIdent name =>
    obtain ⟨-, -, -, -, -, -, -, -, -, -, -, -, -, hassign, -⟩ := hnone
    rw [show (tokens[place + 1]?.any fun t => t.isPunct .assign) = false from
      Bool.eq_false_iff.mpr hassign]
    rfl
  | _ => rfl

theorem statement_follows (hb : BlocksFollow text tokens place block block') {t : Token}
    (ht : tokens[place]? = some t) :
    Follows text tokens (place + 1) place (statement text tokens block t)
      (Statement.readOne block' t) := by
  have hparse : statement text tokens block t place = _ := bind_of_ok get_eq
  cases hfind : (rules text tokens block).find? fun rule => rule.applies place with
  | some rule =>
    rw [hfind] at hparse
    have happlies : rule.applies place = true :=
      @List.find?_some _ (fun rule : Rule => rule.applies place) _ _ hfind
    exact (rule_follows hp hb ht (List.mem_of_find?_eq_some hfind) happlies).of_eq hparse rfl
  | none =>
    rw [hfind] at hparse
    have hnone : Statement.rule? block' (standing text tokens place) = none :=
      rule?_of_forall_not block' ht (List.find?_eq_none.mp hfind)
    refine (fail_follows (Nat.le_of_lt (lt_of_token ht)) _).of_eq hparse ?_
    unfold Statement.readOne
    rw [bind_get, hnone]

/-! ## Whole texts -/

theorem statements_follows {turns fuel : Nat} (terminator : Terminator)
    (h : place ≤ tokens.length) (hturns : tokens.length - place < turns)
    (hfuel : tokens.length - place < fuel) :
    Follows text tokens place place (statements text tokens turns terminator)
      (Statement.readList fuel terminator) := by
  induction turns generalizing place fuel terminator with
  | zero => exact absurd hturns (Nat.not_lt_zero _)
  | succ turns ih =>
    obtain ⟨fuel, rfl⟩ := Nat.exists_eq_add_of_lt hfuel
    unfold statements Statement.readList
    refine (skipWhile_follows h _).bind fun _ next _ hplace hnext => peek_bind (get_bind ?_)
    rw [head?_standing]
    cases ht : tokens[next]? with
    | none =>
      dsimp only
      split
      · exact .pure _ hplace hnext
      · exact fail_follows hnext _
    | some t =>
      have hlt := lt_of_token ht
      have hb : BlocksFollow text tokens next (statements text tokens turns)
          (Statement.readList (tokens.length - place + fuel)) := fun terminator last hlast hlen =>
        ih terminator hlen (by omega) (by omega)
      dsimp only
      split
      · exact .pure _ hplace hnext
      split
      · exact fail_follows hnext _
      refine (statement_follows hp hb ht).bind fun statement next₁ hlow₁ _ hnext₁ => ?_
      exact (ih terminator hnext₁ (by omega) (by omega)).bind fun more last _ hplace₂ hlast =>
        .pure _ (by omega) hlast

/-- A rule that reads a statement moves on. -/
theorem lt_of_rule {turns : Nat} (hturns : tokens.length - place ≤ turns) {rule : Rule}
    (hrule : rule ∈ rules text tokens (statements text tokens turns))
    (happlies : rule.applies place = true) {statement : Statement} {next : Nat}
    (hparse : rule.parse place = .ok (statement, next)) : place < next := by
  have hb : BlocksFollow text tokens place (statements text tokens turns)
      (Statement.readList (tokens.length + 1)) := fun terminator last hlast hlen =>
    statements_follows hp terminator hlen (by omega) (by omega)
  obtain ⟨t, ht⟩ := exists_token_of_applies hrule happlies
  exact (rule_follows hp hb ht hrule happlies).le_of_ok hparse

omit hp in
/-- Parsing by places has the outcome of reading, and never runs into a trap. -/
theorem parse_eq (h : Token.ofChars text = .ok tokens) :
    parse text tokens = sure (Statement.ofTokens text tokens) := by
  have hcode := (placed_of_ofChars h).filter fun t => !t.lexeme.isComment
  unfold parse Statement.ofTokens
  generalize (tokens.filter fun t => !t.lexeme.isComment) = code at hcode ⊢
  have hfollows : Follows text code 0 0 (statements text code (turns code) .endOfText)
      (Statement.readList (code.length + 1) .endOfText) :=
    statements_follows hcode .endOfText (Nat.zero_le _) (lt_turns 0) (Nat.lt_succ_self _)
  have hrun := Tracks.run_eq hfollows
  show (statements text code (turns code) .endOfText 0 >>= fun found => pure found.1) =
    sure ((·.1) <$> Statement.readList (code.length + 1) .endOfText (standing text code 0))
  rw [← hrun, map_eq_pure_bind]

end PipelineScript.Parsing
