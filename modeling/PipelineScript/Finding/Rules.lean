import PipelineScript.Finding
import PipelineScript.Table

/-! # The rules

Each rule walks the whole tree on its own. The rule of block structure comes first, since the
others say little about a tree of the wrong shape; it does not look below a statement that it has
already found wrong. -/

namespace PipelineScript.Finding

/-! ## Block structure -/

/-- The first child of a conditional is a branch. -/
def startsWithBranch : List Statement → Bool
  | s :: _ => ArmOwner.conditional.isHead s.kind
  | [] => false

mutual

def ofShape : Statement → List Finding
  | ⟨kind, shape, line, children⟩ =>
    if shape ≠ kind.shape then [⟨line, .wrongShape kind shape⟩]
    else
      match kind with
      | .conditional =>
        (if startsWithBranch children then [] else [⟨line, .noFirstBranch⟩]) ++
          ofArms .conditional children
      | .switch _ => ofArms .switch children
      | other =>
        match other.shape with
        | .block => ofShapes children
        | .line => if children.isEmpty then [] else [⟨line, .childrenOfLine other⟩]

/-- A plain list of statements holds no arms. -/
def ofShapes : List Statement → List Finding
  | [] => []
  | s :: rest =>
    (match ArmOwner.ofArm? s.kind with
      | some owner => [⟨s.line, .strayArm s.kind owner⟩]
      | none => ofShape s) ++ ofShapes rest

def ofArms (owner : ArmOwner) : List Statement → List Finding
  | [] => []
  | s :: rest =>
    (if owner.isHead s.kind || (owner.isTail s.kind && rest.isEmpty) then ofShape s
      else if owner.isTail s.kind then [⟨s.line, .tailNotLast owner⟩]
      else [⟨s.line, .foreignArm owner s.kind⟩]) ++ ofArms owner rest

end

/-! ## Jumps -/

/-- Does a jump in the body of a statement have a loop to jump out of? A function starts afresh. -/
def bodyInLoop (inLoop : Bool) : Kind → Bool
  | .function .. => false
  | kind => kind.isLoop || inLoop

mutual

def ofJump (inLoop : Bool) : Statement → List Finding
  | ⟨kind, _, line, children⟩ =>
    (if kind.isLoopControl && !inLoop then [⟨line, .jumpOutsideLoop kind⟩] else []) ++
      ofJumps (bodyInLoop inLoop kind) children

def ofJumps (inLoop : Bool) : List Statement → List Finding
  | [] => []
  | s :: rest => ofJump inLoop s ++ ofJumps inLoop rest

end

mutual

def ofReturn (inFunction : Bool) : Statement → List Finding
  | ⟨kind, _, line, children⟩ =>
    match kind with
    | .returnValue _ =>
      if inFunction then ofReturns true children else [⟨line, .returnOutsideFunction⟩]
    | .function .. => ofReturns true children
    | _ => ofReturns inFunction children

def ofReturns (inFunction : Bool) : List Statement → List Finding
  | [] => []
  | s :: rest => ofReturn inFunction s ++ ofReturns inFunction rest

end

/-! ## Functions -/

/-- The finding of a definition whose name was `seen` before in its list, with the line where it
was defined last. -/
def ofName (seen : Table Nat) : Statement → List Finding
  | ⟨.function name _, _, line, _⟩ =>
    match Table.get? seen name with
    | some firstLine => [⟨line, .duplicateFunction name firstLine⟩]
    | none => []
  | _ => []

/-- The names defined in a list through a statement of it. -/
def namesAfter (seen : Table Nat) : Statement → Table Nat
  | ⟨.function name _, _, line, _⟩ => Table.insert seen name line
  | _ => seen

mutual

def ofBodyNames : Statement → List Finding
  | ⟨_, _, _, children⟩ => ofNames [] children

def ofNames (seen : Table Nat) : List Statement → List Finding
  | [] => []
  | s :: rest => ofName seen s ++ ofBodyNames s ++ ofNames (namesAfter seen s) rest

end

/-! ## All rules -/

def ofRule (nodes : List Statement) : Rule → List Finding
  | .blockStructure => ofShapes nodes
  | .loopControl => ofJumps false nodes
  | .returnOutsideFunction => ofReturns false nodes
  | .duplicateFunction => ofNames [] nodes

/-- All that is wrong with a list of statements, rule after rule. -/
def all (nodes : List Statement) : List Finding := Rule.all.flatMap (ofRule nodes)

/-- The first finding stops the script from compiling. -/
def check (nodes : List Statement) : Except Diagnostic Unit :=
  match all nodes with
  | [] => .ok ()
  | first :: _ => .error first.diagnose

end PipelineScript.Finding
