import PipelineScript.Statement

/-! # Views of a tree

A tree may be looked at with other expressions or with other lines, everything else as it is. Two
trees that look alike through their views have the same statements in the same places. -/

namespace PipelineScript

/-- What is put in place of every expression and of every line. -/
structure View where
  expr : SourceExpr → SourceExpr
  line : Nat → Nat

namespace View

/-- The tree as it is. -/
def plain : View := ⟨id, id⟩

/-- Every line that many lines further down. -/
def moved (lines : Nat) : View := ⟨id, (· + lines)⟩

/-- The lines do not count. -/
def withoutLines : View := ⟨id, fun _ => 0⟩

variable (v : View)

def invocation (call : Invocation) : Invocation := ⟨call.name, call.args.map v.expr⟩

def source : Source → Source
  | .expr e => .expr (v.expr e)
  | .run call => .run (v.invocation call)
  | .invoke call e => .invoke (v.invocation call) (v.expr e)

def iterable : Iterable → Iterable
  | .range start stop inclusive => .range (v.expr start) (v.expr stop) inclusive
  | .each e => .each (v.expr e)

def entry (t : TaskEntry) : TaskEntry := ⟨t.key, v.invocation t.call, v.line t.line⟩

def kind : Kind → Kind
  | .declare name declaredType value => .declare name declaredType (value.map v.source)
  | .assign name value => .assign name (v.source value)
  | .run call => .run (v.invocation call)
  | .taskBlock target tasks => .taskBlock target (tasks.map v.entry)
  | .exportValue e => .exportValue (v.expr e)
  | .echo e => .echo (v.expr e)
  | .branch condition => .branch (v.expr condition)
  | .switch subject => .switch (v.expr subject)
  | .case_ value => .case_ (v.expr value)
  | .forLoop variable_ iterable => .forLoop variable_ (v.iterable iterable)
  | .whileLoop condition => .whileLoop (v.expr condition)
  | .returnValue value => .returnValue (value.map v.expr)
  | .call call => .call (v.invocation call)
  | k => k

mutual

def statement : Statement → Statement
  | ⟨kind, shape, line, children⟩ => ⟨v.kind kind, shape, v.line line, statements children⟩

def statements : List Statement → List Statement
  | [] => []
  | s :: ss => statement s :: statements ss

end

@[simp] theorem statements_nil : v.statements [] = [] := by rw [statements]

@[simp] theorem statements_cons (s : Statement) (ss : List Statement) :
    v.statements (s :: ss) = v.statement s :: v.statements ss := by rw [statements]

@[simp] theorem statement_ofLine (kind : Kind) (line : Nat) :
    v.statement (.ofLine kind line) = .ofLine (v.kind kind) (v.line line) := by
  simp [Statement.ofLine, statement]

@[simp] theorem statement_ofBlock (kind : Kind) (line : Nat) (children : List Statement) :
    v.statement (.ofBlock kind line children) =
      .ofBlock (v.kind kind) (v.line line) (v.statements children) := by
  simp [Statement.ofBlock, statement]

/-! ## The tree as it is -/

@[simp] theorem expr_plain (e : SourceExpr) : plain.expr e = e := rfl

@[simp] theorem line_plain (n : Nat) : plain.line n = n := rfl

@[simp] theorem invocation_plain (call : Invocation) : plain.invocation call = call := by
  simp [invocation, plain]

@[simp] theorem source_plain (s : Source) : plain.source s = s := by
  cases s <;> simp [source]

@[simp] theorem iterable_plain (i : Iterable) : plain.iterable i = i := by
  cases i <;> simp [iterable]

@[simp] theorem entry_plain (t : TaskEntry) : plain.entry t = t := by
  simp [entry]

@[simp] theorem kind_plain (k : Kind) : plain.kind k = k := by
  have hsource : plain.source = id := funext source_plain
  have hentry : plain.entry = id := funext entry_plain
  have hexpr : plain.expr = id := rfl
  cases k <;> simp [kind, hsource, hentry, hexpr]

mutual

@[simp] theorem statement_plain : ∀ s : Statement, plain.statement s = s
  | ⟨kind, shape, line, children⟩ => by
    rw [statement, kind_plain, line_plain, statements_plain children]

@[simp] theorem statements_plain : ∀ ss : List Statement, plain.statements ss = ss
  | [] => by rw [statements]
  | s :: ss => by rw [statements, statement_plain s, statements_plain ss]

end

@[simp] theorem map_statement_plain (found : Option Statement) :
    found.map plain.statement = found := by
  rw [show plain.statement = id from funext statement_plain, Option.map_id_fun, id]

/-! ## The tree without lines -/

@[simp] theorem expr_withoutLines (e : SourceExpr) : withoutLines.expr e = e := rfl

@[simp] theorem invocation_withoutLines (call : Invocation) :
    withoutLines.invocation call = call := invocation_plain call

@[simp] theorem source_withoutLines (s : Source) : withoutLines.source s = s := source_plain s

@[simp] theorem iterable_withoutLines (i : Iterable) : withoutLines.iterable i = i :=
  iterable_plain i

end View

end PipelineScript
