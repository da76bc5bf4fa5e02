import PipelineScript.Diagnostic
import PipelineScript.Statement

/-! # Findings

What is wrong with a list of statements as a tree: things that no single statement can see, and
shapes that only a tree made by hand can have. -/

namespace PipelineScript

/-- What a list of statements is checked for. -/
inductive Rule where
  | blockStructure
  | loopControl
  | returnOutsideFunction
  | duplicateFunction
deriving DecidableEq, Repr

namespace Rule

/-- In the order in which they are applied. -/
def all : List Rule := [blockStructure, loopControl, returnOutsideFunction, duplicateFunction]

def id : Rule → String
  | blockStructure => "block-structure"
  | loopControl => "loop-control"
  | returnOutsideFunction => "return-outside-function"
  | duplicateFunction => "duplicate-function"

def description : Rule → String
  | blockStructure =>
    "node structure matches its kind and composite statements hold the right children"
  | loopControl => "break, breakAll and continue only inside for/while loops"
  | returnOutsideFunction => "return only inside a function body"
  | duplicateFunction => "at most one function definition per name in a statement list"

end Rule

/-- The statements whose children are arms. -/
inductive ArmOwner where
  | conditional
  | switch
deriving DecidableEq, Repr

namespace ArmOwner

def name : ArmOwner → String
  | conditional => "If"
  | switch => "Switch"

/-- The arms that may repeat. -/
def headName : ArmOwner → String
  | conditional => "Branch"
  | switch => "Case"

/-- The arm that may only come last. -/
def tailName : ArmOwner → String
  | conditional => "Else"
  | switch => "Default"

def isHead : ArmOwner → Kind → Bool
  | conditional, .branch _ => true
  | switch, .case_ _ => true
  | _, _ => false

def isTail : ArmOwner → Kind → Bool
  | conditional, .otherwise => true
  | switch, .fallback => true
  | _, _ => false

/-- The statement that an arm belongs to. -/
def ofArm? : Kind → Option ArmOwner
  | .branch _ | .otherwise => some conditional
  | .case_ _ | .fallback => some switch
  | _ => none

end ArmOwner

inductive FindingCause where
  | strayArm (kind : Kind) (owner : ArmOwner)
  | wrongShape (kind : Kind) (found : Shape)
  | childrenOfLine (kind : Kind)
  | noFirstBranch
  | tailNotLast (owner : ArmOwner)
  | foreignArm (owner : ArmOwner) (kind : Kind)
  | jumpOutsideLoop (kind : Kind)
  | returnOutsideFunction
  | duplicateFunction (name : String) (firstLine : Nat)
deriving DecidableEq, Repr

namespace FindingCause

def rule : FindingCause → Rule
  | strayArm .. | wrongShape .. | childrenOfLine _ | noFirstBranch | tailNotLast _
  | foreignArm .. => .blockStructure
  | jumpOutsideLoop _ => .loopControl
  | returnOutsideFunction => .returnOutsideFunction
  | duplicateFunction .. => .duplicateFunction

def category : FindingCause → Category
  | jumpOutsideLoop _ | returnOutsideFunction => .controlFlow
  | _ => .structure_

def shapeText : Shape → String
  | .line => "Line"
  | .block => "Block"

/-- The keyword of a jump. -/
def jumpText : Kind → String
  | .breakLoop => "break"
  | .breakAll => "breakAll"
  | _ => "continue"

def message : FindingCause → String
  | strayArm kind owner => s!"'{kind.name}' must appear directly inside '{owner.name}'"
  | wrongShape kind found =>
    s!"'{kind.name}' must be a {shapeText kind.shape} node, found {shapeText found}"
  | childrenOfLine kind => s!"line statement '{kind.name}' cannot have children"
  | noFirstBranch => "'If' must start with a Branch"
  | tailNotLast owner => s!"'{owner.tailName}' must be the last arm of '{owner.name}'"
  | foreignArm owner kind =>
    s!"'{owner.name}' may only contain {owner.headName} and {owner.tailName} nodes, " ++
      s!"found '{kind.name}'"
  | jumpOutsideLoop kind => s!"'{jumpText kind}' outside of a loop"
  | returnOutsideFunction => "'return' outside of a function"
  | duplicateFunction name firstLine =>
    s!"function '{name}' is already defined at line {firstLine}"

def suggestion : FindingCause → String
  | jumpOutsideLoop _ => "use break/breakAll/continue only inside a for or while body"
  | returnOutsideFunction => "use \x60export value\x60 to hand a result back to the host"
  | duplicateFunction .. => "rename or remove one of the definitions"
  | _ => "rebuild the statement from source instead of editing the AST by hand"

end FindingCause

structure Finding where
  line : Nat
  cause : FindingCause
deriving DecidableEq, Repr

namespace Finding

def text (f : Finding) : String :=
  s!"error at line {f.line}: {f.cause.message} [{f.cause.rule.id}]"

/-- A finding has no tokens around it: its context names the rule. -/
def diagnose (f : Finding) : Diagnostic :=
  ⟨f.line, f.cause.category, f.cause.message, s!"[{f.cause.rule.id}]", f.cause.suggestion⟩

end Finding

end PipelineScript
