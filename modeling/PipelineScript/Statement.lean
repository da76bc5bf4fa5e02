/-! # Statements

A script is a list of statements. Statements with a block keep its statements as children; an
expression is kept as its text and parsed when it is evaluated. The trees need not come from a
text, so nothing here keeps a child out of the wrong place: that is the business of the findings. -/

namespace PipelineScript

/-- Does a statement own a list of statements? -/
inductive Shape where
  | line
  | block
deriving DecidableEq, Repr

/-- The text of an expression. -/
structure SourceExpr where
  source : String
deriving DecidableEq, Repr

/-- A name with arguments. -/
structure Invocation where
  name : String
  args : List SourceExpr
deriving DecidableEq, Repr

/-- What a declaration or an assignment stores. -/
inductive Source where
  | expr (e : SourceExpr)
  /-- The result of a task that runs on the spot. -/
  | run (call : Invocation)
  /-- A call that may mean a function, a task or, as the expression `source`, a builtin. -/
  | invoke (call : Invocation) (source : SourceExpr)
deriving DecidableEq, Repr

/-- What a `for` loop walks over. -/
inductive Iterable where
  /-- The integers from `start` to `stop`, which is one of them if `inclusive`. -/
  | range (start stop : SourceExpr) (inclusive : Bool)
  /-- The items of a list, the keys of a map, the characters of a string. -/
  | each (e : SourceExpr)
deriving DecidableEq, Repr

/-- One entry of a task block: the result of `call` goes to `key`. -/
structure TaskEntry where
  key : String
  call : Invocation
  line : Nat
deriving DecidableEq, Repr

inductive Kind where
  | importPath (path localName : String)
  | declare (name : String) (declaredType : Option String) (value : Option Source)
  | assign (name : String) (value : Source)
  | run (call : Invocation)
  | taskBlock (target : String) (tasks : List TaskEntry)
  | exportValue (value : SourceExpr)
  | echo (value : SourceExpr)
  /-- The children are branches and perhaps one `otherwise`. -/
  | conditional
  | branch (condition : SourceExpr)
  | otherwise
  /-- The children are cases and perhaps one `fallback`. -/
  | switch (subject : SourceExpr)
  | case_ (value : SourceExpr)
  | fallback
  | forLoop (variable_ : String) (iterable : Iterable)
  | whileLoop (condition : SourceExpr)
  | breakLoop
  | breakAll
  | continueLoop
  | returnValue (value : Option SourceExpr)
  | function (name : String) (params : List String)
  | call (call : Invocation)
deriving DecidableEq, Repr

namespace Kind

/-- The name of the kind in trees, error messages and reports. -/
def name : Kind → String
  | importPath .. => "Import" | declare .. => "Declare" | assign .. => "Assign" | run _ => "Run"
  | taskBlock .. => "Task" | exportValue _ => "Export" | echo _ => "Echo" | conditional => "If"
  | branch _ => "Branch" | otherwise => "Else" | switch _ => "Switch" | case_ _ => "Case"
  | fallback => "Default" | forLoop .. => "For" | whileLoop _ => "While" | breakLoop => "Break"
  | breakAll => "BreakAll" | continueLoop => "Continue" | returnValue _ => "Return"
  | function .. => "FunctionDef" | call _ => "Call"

/-- The shape that a statement of the kind has to have. -/
def shape : Kind → Shape
  | conditional | branch _ | otherwise | switch _ | case_ _ | fallback | forLoop .. | whileLoop _
  | function .. => .block
  | _ => .line

def isLoop : Kind → Bool
  | forLoop .. | whileLoop _ => true
  | _ => false

def isLoopControl : Kind → Bool
  | breakLoop | breakAll | continueLoop => true
  | _ => false

end Kind

structure Statement where
  kind : Kind
  shape : Shape
  /-- The line of the first token, counted from 1. -/
  line : Nat
  children : List Statement
deriving Repr

namespace Statement

def ofLine (kind : Kind) (line : Nat) : Statement := ⟨kind, .line, line, []⟩

def ofBlock (kind : Kind) (line : Nat) (children : List Statement) : Statement :=
  ⟨kind, .block, line, children⟩

def kindName (s : Statement) : String := s.kind.name

end Statement

end PipelineScript
