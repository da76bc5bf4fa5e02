import PipelineScript.Proofs.Context.Views
import PipelineScript.Finding.Rules

/-! # Findings of a view

The rules look at the kinds of statements and at the names of functions, never at expressions: what
they find in a view of a tree is a view of what they find in the tree (`Finding.all_view`). -/

namespace PipelineScript

namespace View

variable (v : View)

def cause : FindingCause → FindingCause
  | .strayArm kind owner => .strayArm (v.kind kind) owner
  | .wrongShape kind found => .wrongShape (v.kind kind) found
  | .childrenOfLine kind => .childrenOfLine (v.kind kind)
  | .foreignArm owner kind => .foreignArm owner (v.kind kind)
  | .jumpOutsideLoop kind => .jumpOutsideLoop (v.kind kind)
  | .duplicateFunction name firstLine => .duplicateFunction name (v.line firstLine)
  | cause => cause

def finding (f : Finding) : Finding := ⟨v.line f.line, v.cause f.cause⟩

variable (k : Kind)

@[simp] theorem shape_kind : (v.kind k).shape = k.shape := by cases k <;> rfl

@[simp] theorem isLoop_kind : (v.kind k).isLoop = k.isLoop := by cases k <;> rfl

@[simp] theorem isLoopControl_kind : (v.kind k).isLoopControl = k.isLoopControl := by
  cases k <;> rfl

@[simp] theorem ofArm?_kind : ArmOwner.ofArm? (v.kind k) = ArmOwner.ofArm? k := by cases k <;> rfl

@[simp] theorem isHead_kind (owner : ArmOwner) : owner.isHead (v.kind k) = owner.isHead k := by
  cases owner <;> cases k <;> rfl

@[simp] theorem isTail_kind (owner : ArmOwner) : owner.isTail (v.kind k) = owner.isTail k := by
  cases owner <;> cases k <;> rfl

@[simp] theorem isEmpty_statements (ss : List Statement) :
    (v.statements ss).isEmpty = ss.isEmpty := by
  cases ss <;> simp

end View

namespace Finding

variable (v : View)

theorem startsWithBranch_view (ss : List Statement) :
    startsWithBranch (v.statements ss) = startsWithBranch ss := by
  cases ss <;> simp [startsWithBranch]

mutual

theorem ofShape_view : ∀ s, ofShape (v.statement s) = (ofShape s).map v.finding
  | ⟨kind, shape, line, children⟩ => by
    have hchildren := ofShapes_view children
    have harms := fun owner => ofArms_view owner children
    rw [View.statement, ofShape.eq_def, ofShape.eq_def]
    dsimp only
    rw [View.shape_kind]
    by_cases hs : shape ≠ kind.shape
    · rw [if_pos hs, if_pos hs]; rfl
    · rw [if_neg hs, if_neg hs]
      cases kind with
      | conditional =>
        rw [List.map_append, ← harms, ← startsWithBranch_view v children]
        simp only [View.kind]
        split <;> rfl
      | switch subject => exact harms _
      | branch | otherwise | case_ | fallback | forLoop | whileLoop | function => exact hchildren
      | _ =>
        simp only [View.kind, Kind.shape, View.isEmpty_statements]
        split <;> rfl

theorem ofShapes_view : ∀ ss, ofShapes (v.statements ss) = (ofShapes ss).map v.finding
  | [] => by rw [View.statements_nil]; rfl
  | s :: rest => by
    have hs := ofShape_view s
    rw [View.statements_cons, ofShapes, ofShapes, List.map_append, ofShapes_view rest,
      View.statement_kind, View.ofArm?_kind, View.statement_line]
    cases ArmOwner.ofArm? s.kind with
    | none => rw [hs]
    | some owner => rfl

theorem ofArms_view (owner : ArmOwner) :
    ∀ ss, ofArms owner (v.statements ss) = (ofArms owner ss).map v.finding
  | [] => by rw [View.statements_nil]; rfl
  | s :: rest => by
    have hs := ofShape_view s
    rw [View.statements_cons, ofArms, ofArms, List.map_append, ofArms_view owner rest,
      View.statement_kind, View.isHead_kind, View.isTail_kind, View.isEmpty_statements,
      View.statement_line]
    split
    · rw [hs]
    · split <;> rfl

end

theorem bodyInLoop_view (inLoop : Bool) (k : Kind) :
    bodyInLoop inLoop (v.kind k) = bodyInLoop inLoop k := by cases k <;> rfl

mutual

theorem ofJump_view (inLoop : Bool) :
    ∀ s, ofJump inLoop (v.statement s) = (ofJump inLoop s).map v.finding
  | ⟨kind, shape, line, children⟩ => by
    rw [View.statement, ofJump, ofJump, List.map_append, View.isLoopControl_kind, bodyInLoop_view,
      ofJumps_view _ children]
    split <;> rfl

theorem ofJumps_view (inLoop : Bool) :
    ∀ ss, ofJumps inLoop (v.statements ss) = (ofJumps inLoop ss).map v.finding
  | [] => by rw [View.statements_nil]; rfl
  | s :: rest => by
    rw [View.statements_cons, ofJumps, ofJumps, List.map_append, ofJump_view inLoop s,
      ofJumps_view inLoop rest]

end

mutual

theorem ofReturn_view (inFunction : Bool) :
    ∀ s, ofReturn inFunction (v.statement s) = (ofReturn inFunction s).map v.finding
  | ⟨kind, shape, line, children⟩ => by
    have hchildren := fun inFunction => ofReturns_view inFunction children
    rw [View.statement, ofReturn.eq_def, ofReturn.eq_def]
    cases kind with
    | returnValue value =>
      cases inFunction with
      | false => rfl
      | true => exact hchildren true
    | function name params => exact hchildren true
    | _ => exact hchildren inFunction

theorem ofReturns_view (inFunction : Bool) :
    ∀ ss, ofReturns inFunction (v.statements ss) = (ofReturns inFunction ss).map v.finding
  | [] => by rw [View.statements_nil]; rfl
  | s :: rest => by
    rw [View.statements_cons, ofReturns, ofReturns, List.map_append, ofReturn_view inFunction s,
      ofReturns_view inFunction rest]

end

/-- The names that were seen, with the lines of the view. -/
def seenThrough (seen : Table Nat) : Table Nat := seen.map fun (name, line) => (name, v.line line)

theorem ofName_view (seen : Table Nat) (s : Statement) :
    ofName (seenThrough v seen) (v.statement s) = (ofName seen s).map v.finding := by
  obtain ⟨kind, shape, line, children⟩ := s
  rw [View.statement]
  cases kind with
  | function name params =>
    simp only [View.kind, ofName, seenThrough, Table.get?_map]
    cases Table.get? seen name <;> rfl
  | _ => rfl

theorem namesAfter_view (seen : Table Nat) (s : Statement) :
    namesAfter (seenThrough v seen) (v.statement s) = seenThrough v (namesAfter seen s) := by
  obtain ⟨kind, shape, line, children⟩ := s
  rw [View.statement]
  cases kind with
  | function name params => exact Table.insert_map v.line seen name line
  | _ => rfl

mutual

theorem ofBodyNames_view : ∀ s, ofBodyNames (v.statement s) = (ofBodyNames s).map v.finding
  | ⟨kind, shape, line, children⟩ => by
    rw [View.statement, ofBodyNames, ofBodyNames]
    exact ofNames_view [] children

theorem ofNames_view (seen : Table Nat) :
    ∀ ss, ofNames (seenThrough v seen) (v.statements ss) = (ofNames seen ss).map v.finding
  | [] => by rw [View.statements_nil]; rfl
  | s :: rest => by
    rw [View.statements_cons, ofNames, ofNames, List.map_append, List.map_append, ofName_view,
      ofBodyNames_view s, namesAfter_view, ofNames_view _ rest]

end

/-- What is wrong with a view of some statements is what is wrong with them, seen through it. -/
theorem all_view (nodes : List Statement) :
    all (v.statements nodes) = (all nodes).map v.finding := by
  have hrule : ∀ r, ofRule (v.statements nodes) r = (ofRule nodes r).map v.finding := by
    intro r
    cases r with
    | blockStructure => exact ofShapes_view v nodes
    | loopControl => exact ofJumps_view v false nodes
    | returnOutsideFunction => exact ofReturns_view v false nodes
    | duplicateFunction => exact ofNames_view v [] nodes
  rw [all, all, List.map_flatMap, funext hrule]

theorem check_eq_ok_iff {nodes : List Statement} : check nodes = .ok () ↔ all nodes = [] := by
  unfold check
  cases all nodes <;> simp

theorem check_view (nodes : List Statement) :
    check (v.statements nodes) = .ok () ↔ check nodes = .ok () := by
  rw [check_eq_ok_iff, check_eq_ok_iff, all_view, List.map_eq_nil_iff]

end Finding

end PipelineScript
