import PipelineScript.Run.Items
import PipelineScript.Run.Tasks

/-! # Running statements

The body of a function is not a part of the call, so recursion goes two ways: down the tree of a
statement, and down the calls that may still be made inside each other. `runStatement` is given the
second one as `call`. Loops are given the number of turns they may take; a `for` loop is given one
more than it has items, which it cannot use up. -/

namespace PipelineScript.Run

/-- Calls that may be made inside each other. -/
def maxCallDepth : Nat := 256

def checkType (line : Nat) (name declared : String) (v : Value) : Run Unit :=
  if v.matchesType? declared = some false then fail line (.wrongType name declared v.typeName)
  else pure ()

/-! ## Loops -/

/-- Goes on after a turn: `brokenAll` leaves the outermost loop as a whole. -/
def afterTurn (again : Run Flow) : Flow → Run Flow
  | .normal | .continued => again
  | .broken => return .normal
  | .brokenAll => do return if (← context).loopDepth ≤ 1 then .normal else .brokenAll
  | .returned v => return .returned v

/-- Turns of a loop: in a new scope, `next` moves the state of the loop on or ends it. -/
def iterate {σ : Type} (limitMillis : Option Nat) (line : Nat) (next : σ → Run (Option σ))
    (body : Run Flow) : Nat → σ → Run Flow
  | 0, _ => throw .exhausted
  | turns + 1, state => do
    checkDeadline limitMillis line
    let turn ← inScope .block do
      match ← next state with
      | some state => return some (state, ← body)
      | none => return none
    match turn with
    | none => return .normal
    | some (state, flow) => afterTurn (iterate limitMillis line next body turns state) flow

/-- Binds the next item to the variable of the loop. -/
def nextItem (variable_ : String) (items : Items) : Run (Option Items) := do
  match items.next? with
  | none => return none
  | some (v, rest) =>
    modifyContext fun c => c.declare variable_ v none
    return some rest

def rangeBound (e : SourceExpr) (line : Nat) : Run Int64 := do
  match ← eval e line with
  | .int i => return i
  | v => fail line (.rangeBound v.typeName e.source)

def itemsOf (line : Nat) : Iterable → Run Items
  | .range start stop inclusive => do
    let first ← rangeBound start line
    let last ← rangeBound stop line
    return .ofRange first last inclusive
  | .each e => do
    let v ← eval e line
    match Items.ofValue? v with
    | some items => return items
    | none => fail line (.notIterable v.typeName)

/-! ## Calls -/

section

variable (sv : Services) (call : Statement → List Value → Nat → Run Value)

/-- A call as a statement of its own: a function of the script or else a task. -/
def callNamed (invocation : Invocation) (line : Nat) : Run Value := do
  let c ← context
  match c.function? invocation.name with
  | some f => call f (← evalAll line invocation.args) line
  | none =>
    if Table.has sv.tasks (c.resolve invocation.name) then runTask sv invocation line
    else fail line (.undefinedFunction invocation.name)

/-- The value to store. What is neither a function nor a task has to be a builtin. -/
def evalSource (line : Nat) : Source → Run Value
  | .expr e => eval e line
  | .run invocation => runTask sv invocation line
  | .invoke invocation e => do
    let c ← context
    match c.function? invocation.name with
    | some f => call f (← evalAll line invocation.args) line
    | none =>
      if Table.has sv.tasks (c.resolve invocation.name) then runTask sv invocation line
      else eval e line

def evalOptional {α : Type} (eval : α → Run Value) : Option α → Run Value
  | some a => eval a
  | none => return .null

/-! ## Statements -/

/-- A definition is known under the name of its function. -/
def bindDefinition (c : Context) (s : Statement) : Context :=
  match s.kind with
  | .function name _ => c.bindFunction name s
  | _ => c

/-- The functions of a list are known before its first statement runs. -/
def hoist (nodes : List Statement) : Run Unit :=
  modifyContext fun c => nodes.foldl bindDefinition c

/-- Declares a name with a value that has to be of the type, if there is one. -/
def declareValue (s : Statement) (name : String) (declaredType : Option String) (v : Value) :
    Run Unit := do
  if let some declared := declaredType then checkType s.line name declared v
  write s fun c => c.declare name v declaredType

/-- Gives a name a value that has to be of the type which the name was declared with. -/
def assignValue (s : Statement) (name : String) (v : Value) : Run Unit := do
  if let some declared := (← context).binding? name >>= Binding.declaredType then
    checkType s.line name declared v
  write s fun c => c.assign name v

mutual

def runStatement : Statement → Run Flow
  | ⟨kind, shape, line, children⟩ => do
    let s : Statement := ⟨kind, shape, line, children⟩
    match kind with
    | .importPath path localName =>
      write s fun c => (c.addImport localName path).declare localName (.handle path) none
      return .normal
    | .declare name declaredType value =>
      let v ← evalOptional (evalSource sv call line) value
      declareValue s name declaredType v
      return .normal
    | .assign name value =>
      let v ← evalSource sv call line value
      assignValue s name v
      return .normal
    | .run invocation =>
      let _ ← runTask sv invocation line
      return .normal
    | .taskBlock target tasks =>
      let v ← runBlock sv tasks
      write s fun c => c.assign target v
      return .normal
    | .exportValue value =>
      let v ← eval value line
      write s fun c => c.setExport v
      return .normal
    | .echo value =>
      echo sv.echoes line (← eval value line).text
      return .normal
    | .conditional => runBranches children
    | .switch subject => runCases (← eval subject line) (return .normal) children
    | .forLoop variable_ iterable =>
      let items ← itemsOf line iterable
      inLoop <| iterate sv.limitMillis line (nextItem variable_)
        (do hoist children; runEach children) (items.size + 1) items
    | .whileLoop condition =>
      inLoop <| iterate sv.limitMillis line
        (fun _ => return if (← eval condition line).isTruthy then some () else none)
        (do hoist children; runEach children) sv.loopTurns ()
    | .breakLoop => return .broken
    | .breakAll => return .brokenAll
    | .continueLoop => return .continued
    | .returnValue value => return .returned (← evalOptional (eval · line) value)
    | .function .. => return .normal
    | .call invocation =>
      let _ ← callNamed sv call invocation line
      return .normal
    | kind => fail line (.strayArm kind.name)

/-- Statements one after another, until one of them does not end normally. -/
def runEach : List Statement → Run Flow
  | [] => return .normal
  | s :: rest => do
    checkDeadline sv.limitMillis s.line
    match ← observed s (runStatement s) with
    | .normal => runEach rest
    | flow => return flow

/-- The statements below a statement, in a scope of their own. -/
def runBody : Statement → Run Flow
  | ⟨_, _, _, children⟩ => inScope .block do hoist children; runEach children

/-- The first branch whose condition holds. -/
def runBranches : List Statement → Run Flow
  | [] => return .normal
  | s :: rest => do
    match s.kind with
    | .branch condition =>
      if (← eval condition s.line).isTruthy then runBody s else runBranches rest
    | .otherwise => runBody s
    | _ => runBranches rest

/-- The first case with the value of the subject, or else the last fallback. -/
def runCases (subject : Value) (fallback : Run Flow) : List Statement → Run Flow
  | [] => fallback
  | s :: rest => do
    match s.kind with
    | .case_ value =>
      if subject.equal (← eval value s.line) then runBody s else runCases subject fallback rest
    | .fallback => runCases subject (runBody s) rest
    | _ => runCases subject fallback rest

end

/-- A list of statements in the current scope. -/
def runList (nodes : List Statement) : Run Flow := do
  hoist nodes
  runEach sv call nodes

end

/-! ## Functions and whole runs -/

def bindParams : List String → List Value → Context → Context
  | param :: params, arg :: args, c => bindParams params args (c.declare param arg none)
  | _, _, c => c

/-- The body of a function in a frame and a scope of its own, with its parameters bound. -/
def inCall (definition : Statement) (params : List String) (args : List Value)
    (body : Run Flow) : Run Flow :=
  inFunction <| inScope .function do
    modifyContext (bindParams params args)
    noted (fun _ => .called definition) body

/-- A call with room for `frames` calls inside each other, this one included. -/
def callFunction (sv : Services) : Nat → Statement → List Value → Nat → Run Value
  | frames, definition, args, line =>
    match definition.kind with
    | .function name params =>
      if args.length ≠ params.length then
        fail line (.argumentCount name params.length args.length)
      else
        match frames with
        | 0 => fail line (.tooDeep maxCallDepth name)
        | frames + 1 => do
          let body := runList sv (callFunction sv frames) definition.children
          match ← inCall definition params args body with
          | .returned v => return v
          | _ => return .null
    | kind => fail line (.notFunction kind.name)

/-- The statements of a script, and the value they export. -/
def script (sv : Services) (nodes : List Statement) : Run (Option Value) := do
  let _ ← runList sv (callFunction sv maxCallDepth) nodes
  let (exported, c) := (← context).takeExport
  modifyContext fun _ => c
  return exported

/-- The machine at the start of a run. -/
def start (host : HostValues) (memo : Memo) (monitor : Option Monitor) : Machine :=
  ⟨Context.ofHost host, memo, monitor, [], 0, none⟩

end PipelineScript.Run
