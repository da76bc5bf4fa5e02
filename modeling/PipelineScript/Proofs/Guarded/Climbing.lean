import Mathlib
import PipelineScript.Proofs.Guarded.Trap
import PipelineScript.Proofs.Expression.Climbing

/-! # Climbing by places

The parser of expressions keeps a place in a row of lexemes. Its parts call each other at most eight
deep before one of them moves on (`Tracking`), so that every lexeme is worth eight turns. With as
many turns it does what the reader does (`parse_eq`). -/

namespace PipelineScript

open Guarded

abbrev Climbing (α : Type) := Guarded Nat ExpressionFault α

namespace Climbing

section

variable (row : List Lexeme)

def peek : Climbing (Option Lexeme) := return row[(← get)]?

def move : Climbing Unit := modify fun place => place + 1

def advance : Climbing (Option Lexeme) := do
  match ← peek row with
  | some t =>
    move
    return some t
  | none => return none

def accept (p : Punct) : Climbing Bool := do
  if (← peek row) = some (.punct p) then
    move
    return true
  else return false

def mark (p : Punct) : Climbing Unit := do
  unless ← accept row p do fault (.expected p ((← peek row).map Lexeme.shown))

def operatorOf? : Lexeme → Option BinaryOp
  | .punct p => BinaryOp.ofMark? p
  | _ => none

/-- An expression of a single lexeme that is no name. -/
def atom : Lexeme → Climbing Expression
  | .int value => return .literal (.int value)
  | .float digits =>
    match Numeral.readFloat? digits.toList with
    | some value => return .literal (.float value)
    | none => fault (.badNumber digits)
  | .str contents => return .literal (.str contents)
  | .keyword .true_ => return .literal (.bool true)
  | .keyword .false_ => return .literal (.bool false)
  | .keyword .null => return .literal .null
  | .keyword word => fault (.keyword word)
  | .systemIdent name => return .variable_ name
  | t => fault (.unexpected t.shown)

mutual

def choice : Nat → Climbing Expression
  | 0 => trap .endless
  | turns + 1 => do
    let condition ← binary turns 0
    if ← accept row .question then
      let yes ← choice turns
      mark row .colon
      let no ← choice turns
      return .choice condition yes no
    else return condition

def binary : Nat → Nat → Climbing Expression
  | 0, _ => trap .endless
  | turns + 1, level => do
    let left ← unary turns
    operators turns level left

/-- The operators that go on from `left`, with their right sides. -/
def operators : Nat → Nat → Expression → Climbing Expression
  | 0, _, _ => trap .endless
  | turns + 1, level, left => do
    match (← peek row).bind operatorOf? with
    | some op =>
      if op.level < level then return left
      else
        let _ ← advance row
        let right ← binary turns (op.level + 1)
        operators turns level (.binary op left right)
    | none => return left

def unary : Nat → Climbing Expression
  | 0 => trap .endless
  | turns + 1 => do
    if ← accept row .minus then return .unary .negate (← unary turns)
    else if ← accept row .bang then return .unary .not (← unary turns)
    else
      let target ← primary turns
      accesses turns target

/-- The fields and items that are taken from `target`. -/
def accesses : Nat → Expression → Climbing Expression
  | 0, _ => trap .endless
  | turns + 1, target => do
    if ← accept row .dot then
      match (← advance row).bind Expression.fieldName? with
      | some name => accesses turns (.field target name)
      | none => fault .noFieldName
    else if ← accept row .openBracket then
      let index ← choice turns
      mark row .closeBracket
      accesses turns (.item target index)
    else return target

def primary : Nat → Climbing Expression
  | 0 => trap .endless
  | turns + 1 => do
    match ← advance row with
    | none => fault .unexpectedEnd
    | some (.ident name) =>
      if ← accept row .openParen then return .call name (← arguments turns .closeParen)
      else return .variable_ name
    | some (.punct .openParen) =>
      let inner ← choice turns
      mark row .closeParen
      return inner
    | some (.punct .openBracket) => return .list (← arguments turns .closeBracket)
    | some t => atom t

/-- Expressions with commas between them, through the mark `close`. -/
def arguments : Nat → Punct → Climbing (List Expression)
  | 0, _ => trap .endless
  | turns + 1, close => do
    if ← accept row close then return []
    else items turns close

/-- As `arguments`, with at least one expression. -/
def items : Nat → Punct → Climbing (List Expression)
  | 0, _ => trap .endless
  | turns + 1, close => do
    let first ← choice turns
    if ← accept row .comma then return first :: (← items turns close)
    else
      mark row close
      return [first]

end

def wholeRow : Climbing Expression := do
  let tree ← choice row (8 * (row.length + 1))
  match ← peek row with
  | none => return tree
  | some t => fault (.unexpected t.shown)

/-- The tree of a row of lexemes that is one expression. -/
def parse : Except (Trap ⊕ ExpressionFault) Expression := (·.1) <$> wholeRow row 0

end

/-! ## Steps -/

variable {row : List Lexeme} {α : Type} {low place : Nat}

/-- What a parser of expressions does at a place, from the lexemes ahead. -/
abbrev Climbs (row : List Lexeme) (low place : Nat) (p : Climbing α)
    (x : Except ExpressionFault (α × List Lexeme)) : Prop :=
  Tracks (fun place => row.drop place) row.length low place p x

theorem drop_eq {t : Lexeme} (ht : row[place]? = some t) :
    row.drop place = t :: row.drop (place + 1) := by
  obtain ⟨hlt, rfl⟩ := List.getElem?_eq_some_iff.mp ht
  exact List.drop_eq_getElem_cons hlt

theorem drop_eq_nil (h : row[place]? = none) : row.drop place = [] :=
  List.drop_eq_nil_of_le (List.getElem?_eq_none_iff.mp h)

theorem eq_some_of_drop {t : Lexeme} {rest : List Lexeme} (h : row.drop place = t :: rest) :
    row[place]? = some t := by
  rw [← List.head?_drop, h]
  rfl

theorem lt_of_lexeme {t : Lexeme} (ht : row[place]? = some t) : place < row.length :=
  (List.getElem?_eq_some_iff.mp ht).1

/-- A step of one lexeme. -/
theorem step_succ {β : Type} {a : α} {p : Climbing α} {f : α → Climbing β}
    {x : Except ExpressionFault (β × List Lexeme)} (hp : p place = .ok (a, place + 1))
    (hf : Climbs row low (place + 1) (f a) x) : Climbs row low place (p >>= f) x :=
  Tracks.step (b := ()) (y := .ok ((), row.drop (place + 1))) (g := fun _ => x) hp rfl
    (Nat.le_succ _) hf

theorem accept_bind {p : Punct} {f : Bool → Climbing α}
    {x : Except ExpressionFault (α × List Lexeme)}
    (hyes : row[place]? = some (.punct p) → Climbs row low (place + 1) (f true) x)
    (hno : row[place]? ≠ some (.punct p) → Climbs row low place (f false) x) :
    Climbs row low place (accept row p >>= f) x := by
  have haccept : accept row p place =
      (if row[place]? = some (.punct p) then do move; return true else return false :
        Climbing Bool) place := rfl
  by_cases h : row[place]? = some (.punct p)
  · rw [if_pos h] at haccept
    exact step_succ haccept (hyes h)
  · rw [if_neg h] at haccept
    exact (hno h).of_eq (bind_of_ok haccept)

/-- A lexeme is there, or the row has ended. -/
theorem advance_bind {f : Option Lexeme → Climbing α}
    {x : Except ExpressionFault (α × List Lexeme)}
    (hsome : ∀ t, row[place]? = some t → Climbs row low (place + 1) (f (some t)) x)
    (hnone : row[place]? = none → Climbs row low place (f none) x) :
    Climbs row low place (advance row >>= f) x := by
  have hadvance : advance row place =
      (match row[place]? with
        | some t => do move; return some t
        | none => return none : Climbing (Option Lexeme)) place := rfl
  cases h : row[place]? with
  | some t =>
    rw [h] at hadvance
    exact step_succ hadvance (hsome t h)
  | none =>
    rw [h] at hadvance
    exact (hnone h).of_eq (bind_of_ok hadvance)

theorem operator?_cons (level : Nat) (t : Lexeme) (rest : List Lexeme) :
    Expression.operator? level (t :: rest) =
      match operatorOf? t with
      | some op => if level ≤ op.level then some (op, rest) else none
      | none => none := by
  cases t <;> rfl

theorem mark_bind {p : Punct} {f : Unit → Climbing α}
    {g : List Lexeme → Except ExpressionFault (α × List Lexeme)}
    (hf : place < row.length → Climbs row low (place + 1) (f ()) (g (row.drop (place + 1)))) :
    Climbs row low place (mark row p >>= f) (Expression.skipMark p (row.drop place) >>= g) := by
  unfold mark
  rw [bind_assoc]
  refine accept_bind (fun hyes => ?_) fun hno => ?_
  · rw [drop_eq hyes, Expression.skipMark_self]
    exact hf (lt_of_lexeme hyes)
  · have hfault : (do fault (.expected p ((← peek row).map Lexeme.shown)) : Climbing Unit) place =
        .error (.inr (.expected p (row[place]?.map Lexeme.shown))) := rfl
    cases ht : row[place]? with
    | none =>
      rw [drop_eq_nil ht]
      rw [ht] at hfault
      exact bind_of_error hfault
    | some t =>
      have hne : t ≠ .punct p := fun heq => hno (heq ▸ ht)
      rw [drop_eq ht, Expression.skipMark, if_neg hne]
      rw [ht] at hfault
      exact bind_of_error hfault

/-! ## All parts -/

/-- With turns enough for the lexemes ahead the parts climb as the readers do. All but those that go
on from a tree move on. -/
structure Tracking (row : List Lexeme) (turns : Nat) : Prop where
  choice {place : Nat} : place ≤ row.length → 8 * (row.length - place) + 8 ≤ turns →
    Climbs row (place + 1) place (choice row turns) (Expression.readChoice turns (row.drop place))
  binary {place : Nat} (level : Nat) : place ≤ row.length →
    8 * (row.length - place) + 7 ≤ turns → Climbs row (place + 1) place
      (binary row turns level) (Expression.readBinary turns level (row.drop place))
  operators {place : Nat} (level : Nat) (left : Expression) : place ≤ row.length →
    8 * (row.length - place) + 1 ≤ turns → Climbs row place place
      (operators row turns level left)
      (Expression.readOperators turns level left (row.drop place))
  unary {place : Nat} : place ≤ row.length → 8 * (row.length - place) + 6 ≤ turns →
    Climbs row (place + 1) place (unary row turns) (Expression.readUnary turns (row.drop place))
  accesses {place : Nat} (target : Expression) : place ≤ row.length →
    8 * (row.length - place) + 1 ≤ turns → Climbs row place place
      (accesses row turns target) (Expression.readAccesses turns target (row.drop place))
  primary {place : Nat} : place ≤ row.length → 8 * (row.length - place) + 5 ≤ turns →
    Climbs row (place + 1) place (primary row turns) (Expression.readPrimary turns (row.drop place))
  arguments {place : Nat} (close : Punct) : place ≤ row.length →
    8 * (row.length - place) + 10 ≤ turns → Climbs row (place + 1) place
      (arguments row turns close) (Expression.readList turns close (row.drop place))
  items {place : Nat} (close : Punct) : place ≤ row.length →
    8 * (row.length - place) + 9 ≤ turns → Climbs row (place + 1) place
      (items row turns close) (Expression.readItems turns close (row.drop place))

namespace Tracking

variable {turns : Nat} (ih : Tracking row turns) (h : place ≤ row.length)
include ih h

theorem choice_succ (hturns : 8 * (row.length - place) + 8 ≤ turns + 1) :
    Climbs row (place + 1) place (Climbing.choice row (turns + 1))
      (Expression.readChoice (turns + 1) (row.drop place)) := by
  unfold Climbing.choice Expression.readChoice
  refine (ih.binary 0 h (by omega)).bind fun condition next hlow _ hnext => ?_
  refine accept_bind (fun hyes => ?_) fun hno => ?_
  · rw [drop_eq hyes]
    have hlt := lt_of_lexeme hyes
    refine (ih.choice hlt (by omega)).bind fun yes next₁ hlow₁ _ hnext₁ => ?_
    refine mark_bind fun hlt₁ => ?_
    refine (ih.choice hlt₁ (by omega)).bind fun no last _ hplace hlast => ?_
    exact .pure _ (by omega) hlast
  · rw [if_neg Bool.false_ne_true]
    dsimp only
    split
    · exact absurd (eq_some_of_drop ‹_›) hno
    · exact .pure _ (by omega) hnext

theorem binary_succ (level : Nat) (hturns : 8 * (row.length - place) + 7 ≤ turns + 1) :
    Climbs row (place + 1) place (Climbing.binary row (turns + 1) level)
      (Expression.readBinary (turns + 1) level (row.drop place)) := by
  unfold Climbing.binary Expression.readBinary
  refine (ih.unary h (by omega)).bind fun left next hlow _ hnext => ?_
  exact (ih.operators level left hnext (by omega)).mono hlow

theorem operators_succ (level : Nat) (left : Expression)
    (hturns : 8 * (row.length - place) + 1 ≤ turns + 1) :
    Climbs row place place (Climbing.operators row (turns + 1) level left)
      (Expression.readOperators (turns + 1) level left (row.drop place)) := by
  unfold Climbing.operators Expression.readOperators
  have hpeek : peek row place = .ok (row[place]?, place) := rfl
  refine Tracks.of_eq ?_ (bind_of_ok hpeek)
  cases ht : row[place]? with
  | none =>
    have hend : Expression.operator? level (row.drop place) = none := by
      rw [drop_eq_nil ht]
      rfl
    rw [hend]
    exact .pure _ (Nat.le_refl _) h
  | some t =>
    have hlt := lt_of_lexeme ht
    rw [drop_eq ht, operator?_cons, Option.bind_some]
    cases hop : operatorOf? t with
    | none =>
      dsimp only
      rw [← drop_eq ht]
      exact .pure _ (Nat.le_refl _) h
    | some op =>
      dsimp only
      by_cases hlevel : level ≤ op.level
      · rw [if_pos hlevel, if_neg (by omega)]
        refine advance_bind (fun t' ht' => ?_) fun hnone => by cases ht.symm.trans hnone
        refine (ih.binary _ hlt (by omega)).bind fun right next _ hplace hnext => ?_
        exact (ih.operators level _ hnext (by omega)).mono (by omega)
      · rw [if_neg hlevel, if_pos (by omega)]
        dsimp only
        rw [← drop_eq ht]
        exact .pure _ (Nat.le_refl _) h

theorem unary_succ (hturns : 8 * (row.length - place) + 6 ≤ turns + 1) :
    Climbs row (place + 1) place (Climbing.unary row (turns + 1))
      (Expression.readUnary (turns + 1) (row.drop place)) := by
  unfold Climbing.unary Expression.readUnary
  refine accept_bind (fun hminus => ?_) fun hminus => accept_bind (fun hbang => ?_) fun hbang => ?_
  · have hlt := lt_of_lexeme hminus
    rw [drop_eq hminus]
    exact (ih.unary hlt (by omega)).bind fun operand next _ hplace hnext =>
      .pure _ (by omega) hnext
  · have hlt := lt_of_lexeme hbang
    rw [drop_eq hbang]
    exact (ih.unary hlt (by omega)).bind fun operand next _ hplace hnext =>
      .pure _ (by omega) hnext
  · rw [if_neg Bool.false_ne_true]
    split
    · exact absurd (eq_some_of_drop ‹_›) hminus
    · exact absurd (eq_some_of_drop ‹_›) hbang
    · refine (ih.primary h (by omega)).bind fun target next hlow _ hnext => ?_
      exact (ih.accesses target hnext (by omega)).mono hlow

theorem accesses_succ (target : Expression) (hturns : 8 * (row.length - place) + 1 ≤ turns + 1) :
    Climbs row place place (Climbing.accesses row (turns + 1) target)
      (Expression.readAccesses (turns + 1) target (row.drop place)) := by
  unfold Climbing.accesses Expression.readAccesses
  refine accept_bind (fun hdot => ?_) fun hdot => accept_bind (fun hopen => ?_) fun hopen => ?_
  · rw [drop_eq hdot]
    refine advance_bind (fun t ht => ?_) fun hnone => ?_
    · have hlt := lt_of_lexeme ht
      rw [drop_eq ht, Option.bind_some]
      dsimp only
      cases Expression.fieldName? t with
      | none => rfl
      | some name => exact (ih.accesses _ hlt (by omega)).mono (by omega)
    · rw [drop_eq_nil hnone]
      rfl
  · have hlt := lt_of_lexeme hopen
    rw [drop_eq hopen]
    refine (ih.choice hlt (by omega)).bind fun index next _ hplace hnext => ?_
    refine mark_bind fun hlt₁ => ?_
    exact (ih.accesses _ hlt₁ (by omega)).mono (by omega)
  · rw [if_neg Bool.false_ne_true]
    split
    · exact absurd (eq_some_of_drop ‹_›) hdot
    · exact absurd (eq_some_of_drop ‹_›) hopen
    · exact .pure _ (Nat.le_refl _) h

omit ih h in
theorem atom_climbs {t : Lexeme} (ht : row[place]? = some t) (hname : ∀ name, t ≠ .ident name)
    (hparen : t ≠ .punct .openParen) (hbracket : t ≠ .punct .openBracket) (turns : Nat) :
    Climbs row (place + 1) (place + 1) (atom t)
      (Expression.readPrimary (turns + 1) (t :: row.drop (place + 1))) := by
  have hlt := lt_of_lexeme ht
  cases t with
  | ident name => exact absurd rfl (hname name)
  | float digits =>
    rw [Expression.readPrimary_float, atom]
    cases Numeral.readFloat? digits.toList with
    | some value => exact .pure _ (Nat.le_refl _) hlt
    | none => rfl
  | keyword word =>
    cases word with
    | true_ | false_ | null => exact .pure _ (Nat.le_refl _) hlt
    | _ => rfl
  | punct p =>
    cases p with
    | openParen => exact absurd rfl hparen
    | openBracket => exact absurd rfl hbracket
    | _ => rfl
  | lineEnd | comment => rfl
  | _ => exact .pure _ (Nat.le_refl _) hlt

omit h in
theorem primary_succ (hturns : 8 * (row.length - place) + 5 ≤ turns + 1) :
    Climbs row (place + 1) place (Climbing.primary row (turns + 1))
      (Expression.readPrimary (turns + 1) (row.drop place)) := by
  unfold Climbing.primary
  refine advance_bind (fun t ht => ?_) fun hnone => ?_
  · have hlt := lt_of_lexeme ht
    rw [drop_eq ht]
    cases t with
    | ident name =>
      refine accept_bind (fun hopen => ?_) fun hopen => ?_
      · have hlt₁ := lt_of_lexeme hopen
        rw [drop_eq hopen]
        exact (ih.arguments .closeParen hlt₁ (by omega)).bind fun args next _ hplace hnext =>
          .pure _ (by omega) hnext
      · rw [Expression.readPrimary_variable (by rwa [Expression.EndsAtom, List.head?_drop])]
        exact .pure _ (Nat.le_refl _) hlt
    | punct p =>
      cases p with
      | openParen =>
        refine (ih.choice hlt (by omega)).bind fun inner next _ hplace hnext => ?_
        exact mark_bind fun hlt₁ => .pure _ (by omega) hlt₁
      | openBracket =>
        exact (ih.arguments .closeBracket hlt (by omega)).bind fun items next _ hplace hnext =>
          .pure _ (by omega) hnext
      | _ => exact atom_climbs ht (by simp) (by simp) (by simp) turns
    | _ => exact atom_climbs ht (by simp) (by simp) (by simp) turns
  · rw [drop_eq_nil hnone]
    rfl

theorem arguments_succ (close : Punct) (hturns : 8 * (row.length - place) + 10 ≤ turns + 1) :
    Climbs row (place + 1) place (Climbing.arguments row (turns + 1) close)
      (Expression.readList (turns + 1) close (row.drop place)) := by
  unfold Climbing.arguments Expression.readList
  rw [List.head?_drop]
  refine accept_bind (fun hclose => ?_) fun hclose => ?_
  · rw [if_pos hclose, List.drop_drop]
    exact .pure _ (Nat.le_refl _) (lt_of_lexeme hclose)
  · rw [if_neg hclose]
    exact ih.items close h (by omega)

theorem items_succ (close : Punct) (hturns : 8 * (row.length - place) + 9 ≤ turns + 1) :
    Climbs row (place + 1) place (Climbing.items row (turns + 1) close)
      (Expression.readItems (turns + 1) close (row.drop place)) := by
  unfold Climbing.items Expression.readItems
  refine (ih.choice h (by omega)).bind fun first next hlow _ hnext => ?_
  refine accept_bind (fun hcomma => ?_) fun hcomma => ?_
  · have hlt := lt_of_lexeme hcomma
    rw [drop_eq hcomma]
    exact (ih.items close hlt (by omega)).bind fun more last _ hplace hlast =>
      .pure _ (by omega) hlast
  · rw [if_neg Bool.false_ne_true]
    dsimp only
    split
    · exact absurd (eq_some_of_drop ‹_›) hcomma
    · exact mark_bind fun hlt => .pure _ (by omega) hlt

end Tracking

theorem tracking (row : List Lexeme) (turns : Nat) : Tracking row turns := by
  induction turns with
  | zero => constructor <;> (intros; omega)
  | succ turns ih =>
    exact {
      choice := ih.choice_succ
      binary := fun level h => ih.binary_succ h level
      operators := fun level left h => ih.operators_succ h level left
      unary := ih.unary_succ
      accesses := fun target h => ih.accesses_succ h target
      primary := fun _ => ih.primary_succ
      arguments := fun close h => ih.arguments_succ h close
      items := fun close h => ih.items_succ h close }

theorem wholeRow_climbs (row : List Lexeme) : Climbs row 0 0 (wholeRow row) (do
    let (tree, rest) ← Expression.readChoice (8 * (row.length + 1)) row
    match rest with
    | [] => return (tree, rest)
    | t :: _ => .error (.unexpected t.shown)) := by
  have hchoice := (tracking row (8 * (row.length + 1))).choice (Nat.zero_le _) (by omega)
  unfold wholeRow
  refine Tracks.bind hchoice fun tree next _ _ hnext => ?_
  cases ht : row[next]? with
  | none =>
    have hpeek : peek row next = .ok (none, next) := by rw [← ht]; rfl
    refine Tracks.of_eq ?_ (bind_of_ok hpeek)
    rw [drop_eq_nil ht]
    exact ⟨next, Nat.zero_le _, Nat.le_refl _, hnext, (drop_eq_nil ht).symm, rfl⟩
  | some t =>
    have hpeek : peek row next = .ok (some t, next) := by rw [← ht]; rfl
    refine Tracks.of_eq ?_ (bind_of_ok hpeek)
    rw [drop_eq ht]
    rfl

/-- Parsing by places has the outcome of reading, and never runs into a trap. -/
theorem parse_eq (row : List Lexeme) : parse row = sure (Expression.ofLexemes row) := by
  unfold parse Expression.ofLexemes
  rw [(wholeRow_climbs row).run_eq]
  rcases Expression.readChoice (8 * (row.length + 1)) row with fault | ⟨tree, rest⟩
  · rfl
  · cases rest <;> rfl

end Climbing

end PipelineScript
