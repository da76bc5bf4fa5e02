import PipelineScript.Statement.Cursor
import PipelineScript.Token.Lexer

/-! # Statements of a script

The first token of a statement decides which rule reads it, and every rule reads through the end
of its statement. Rules for statements with a block are given the reader of blocks, so that
`statements` is the only recursion on nesting. It spends one unit of fuel per statement; there are
never more statements than tokens, so that `ofTokens` does not run out. -/

namespace PipelineScript

open Reading

/-- Where a list of statements stops. The token that stops it is not read. -/
inductive Terminator where
  | endOfText
  | closeBrace
  /-- The next arm of a switch, or its end. -/
  | nextArm
deriving DecidableEq, Repr

namespace Terminator

def stopsAt : Terminator → Token → Bool
  | endOfText, _ => false
  | closeBrace, t => t.isPunct .closeBrace
  | nextArm, t => t.isPunct .closeBrace || t.isKeyword .case_ || t.isKeyword .default_

end Terminator

namespace Statement

/-! ## Statements on a line -/

def readImport : Reading Kind := do
  let path ← dottedName "an import path"
  let localName ←
    if ← acceptKeyword .as_ then name "an import alias"
    else pure (path.getLast?.getD "")
  return .importPath (".".intercalate path) localName

/-- A bare call that fills the rest of the statement. -/
def bareCall? (c : Cursor) : Option (Source × Cursor) :=
  if c.isAtInvocation then
    match invocation.run c with
    | .ok (call, c') =>
      if c'.isAtStatementEnd then
        let tokens := c.ahead.take (c.ahead.length - c'.ahead.length)
        (Cursor.sourceOf? c.source tokens).map fun e => (.invoke call e, c')
      else none
    | .error _ => none
  else none

/-- What is stored: the result of a task, a bare call, or any other expression. -/
def readSource : Reading Source := do
  if ← acceptKeyword .run then
    return .run (← invocation)
  else
    match bareCall? (← get) with
    | some (source, c) => set c; return source
    | none => return .expr (← restOfStatement "a value")

def readDeclare : Reading Kind := do
  let name ← name "a variable name"
  let declaredType ←
    if ← accept .colon then some <$> dottedName "a type name" else pure none
  let value ← if ← accept .assign then some <$> readSource else pure none
  return .declare name (declaredType.map fun parts => ".".intercalate parts) value

def readAssign : Reading Kind := do
  let name ← name "a variable name"
  mark .assign "'='"
  return .assign name (← readSource)

def isEntryGap (t : Token) : Bool := t.isLineEnd || t.isPunct .comma

def readTaskKey : Reading String := do
  match (← get).head?.map Token.lexeme with
  | some (.ident key) | some (.str key) => advance 1; return key
  | _ => fail .noTaskKey

/-- The entries of a task block through its closing brace; the keys `seen` are taken. -/
def readTaskEntries : Nat → List String → Reading (List TaskEntry)
  | 0, _ => fail .noTaskKey
  | fuel + 1, seen => do
    skipWhile isEntryGap
    if ← accept .closeBrace then return []
    else
      let line ← Reading.line
      let key ← readTaskKey
      if seen.contains key then fail (.duplicateTaskKey key)
      mark .colon "':' after the task key"
      let call ← invocation
      let c ← get
      unless c.isAtStatementEnd || c.isAtMark .comma do fail .openTaskEntry
      return ⟨key, call, line⟩ :: (← readTaskEntries fuel (key :: seen))

def readTaskBlock : Reading Kind := do
  let target ← name "a result variable name"
  mark .openBrace "'\x7b' to open the task list"
  return .taskBlock target (← readTaskEntries (← get).ahead.length [])

def readReturn : Reading Kind := do
  if (← get).isAtStatementEnd then return .returnValue none
  else return .returnValue (← restOfStatement "the return value")

/-! ## Statements with a block -/

variable (block : Terminator → Reading (List Statement))

def braced : Reading (List Statement) := do
  mark .openBrace "'\x7b' to open the block"
  let body ← block .closeBrace
  mark .closeBrace "'\x7d' to close the block"
  return body

/-- The further arms of a conditional. An `else` may come on a later line. -/
def readElse : Nat → Reading (List Statement)
  | 0 => return []
  | fuel + 1 => do
    let onward := (← get).skipWhile Token.isLineEnd
    if onward.isAtKeyword .else_ then
      set (onward.advance 1)
      if ← acceptKeyword .if_ then
        let condition ← parenthesized "else-if condition"
        let body ← braced block
        return ofBlock (.branch condition) onward.line body :: (← readElse fuel)
      else
        return [ofBlock .otherwise onward.line (← braced block)]
    else return []

def readConditional (line : Nat) : Reading Statement := do
  let condition ← parenthesized "if condition"
  let body ← braced block
  let more ← readElse block (← get).ahead.length
  return ofBlock .conditional line (ofBlock (.branch condition) line body :: more)

/-- The arms of a switch through its closing brace. -/
def readArms : Nat → Reading (List Statement)
  | 0 => fail .noArm
  | fuel + 1 => do
    skipWhile Token.isLineEnd
    if ← accept .closeBrace then return []
    else
      let line ← Reading.line
      if ← acceptKeyword .case_ then
        let value ← expression (fun t => t.isPunct .colon) "a case value"
        mark .colon "':' after the case value"
        let body ← block .nextArm
        return ofBlock (.case_ value) line body :: (← readArms fuel)
      else if ← acceptKeyword .default_ then
        mark .colon "':' after 'default'"
        let body ← block .nextArm
        return ofBlock .fallback line body :: (← readArms fuel)
      else fail .noArm

def readSwitch (line : Nat) : Reading Statement := do
  let subject ← parenthesized "switch subject"
  mark .openBrace "'\x7b' to open the switch body"
  return ofBlock (.switch subject) line (← readArms block (← get).ahead.length)

def readIterable : Reading Iterable := do
  let tokens ← expressionTokens fun _ => false
  match Token.splitRange? 0 tokens with
  | some (before, inclusive, after) =>
    let start ← sourceOf before .noRangeStart
    let stop ← sourceOf after .noRangeStop
    return .range start stop inclusive
  | none => return .each (← sourceOf tokens .noIterable)

def readFor (line : Nat) : Reading Statement := do
  let variable_ ← name "a loop variable"
  keyword .in_
  let iterable ← readIterable
  return ofBlock (.forLoop variable_ iterable) line (← braced block)

def readWhile (line : Nat) : Reading Statement := do
  let condition ← parenthesized "while condition"
  return ofBlock (.whileLoop condition) line (← braced block)

/-- The parameters through the closing parenthesis, at least one; the names `seen` are taken. -/
def readParameters : Nat → List String → Reading (List String)
  | 0, _ => fail (.expected "a parameter name")
  | fuel + 1, seen => do
    let param ← name "a parameter name"
    if seen.contains param then fail (.duplicateParameter param)
    if ← accept .comma then
      return param :: (← readParameters fuel (param :: seen))
    else
      mark .closeParen "',' or ')' in the parameter list"
      return [param]

def readFunction (line : Nat) : Reading Statement := do
  let name ← name "a function name"
  mark .openParen "'(' to start the parameter list"
  let params ←
    if ← accept .closeParen then pure []
    else readParameters (← get).ahead.length []
  return ofBlock (.function name params) line (← braced block)

/-! ## Choosing the rule -/

/-- What follows the keyword of a statement on `line`, for the keywords that begin one. -/
def afterKeyword? (line : Nat) : Keyword → Option (Reading Statement)
  | .import_ => some ((ofLine · line) <$> readImport)
  | .declare => some ((ofLine · line) <$> readDeclare)
  | .run => some (return ofLine (.run (← invocation)) line)
  | .task => some ((ofLine · line) <$> readTaskBlock)
  | .export_ => some (return ofLine (.exportValue (← restOfStatement "the value to export")) line)
  | .echo => some (return ofLine (.echo (← restOfStatement "the value to echo")) line)
  | .if_ => some (readConditional block line)
  | .switch => some (readSwitch block line)
  | .for_ => some (readFor block line)
  | .while_ => some (readWhile block line)
  | .break_ => some (return ofLine .breakLoop line)
  | .breakAll => some (return ofLine .breakAll line)
  | .continue_ => some (return ofLine .continueLoop line)
  | .return_ => some ((ofLine · line) <$> readReturn)
  | .function => some (readFunction block line)
  | _ => none

/-- The rule for the statement ahead, with the name that it goes by in messages. -/
def rule? (c : Cursor) : Option (String × Reading Statement) :=
  match c.head?.map Token.lexeme with
  | some (.keyword word) =>
    (afterKeyword? block c.line word).map fun rule => (word.text, advance 1 *> rule)
  | some (.ident _) =>
    if c.second?.any fun t => t.isPunct .assign then
      some ("assignment", (ofLine · c.line) <$> readAssign)
    else if c.isAtInvocation then some ("call", return ofLine (.call (← invocation)) c.line)
    else none
  | some (.systemIdent _) =>
    if c.second?.any fun t => t.isPunct .assign then
      some ("assignment", (ofLine · c.line) <$> readAssign)
    else none
  | _ => none

/-- The statement that begins with `token`, through its end. -/
def readOne (token : Token) : Reading Statement := do
  match rule? block (← get) with
  | none => fail (.unrecognized token.shown)
  | some (label, rule) =>
    let statement ← rule
    endOf label
    return statement

/-- The statements up to `terminator`. -/
def readList : Nat → Terminator → Reading (List Statement)
  | 0, _ => fail .openBlock
  | fuel + 1, terminator => do
    skipWhile Token.isLineEnd
    match (← get).head? with
    | none => if terminator = .endOfText then return [] else fail .openBlock
    | some token =>
      if terminator.stopsAt token then return []
      else if terminator = .endOfText ∧ token.isPunct .closeBrace then fail .strayClose
      else
        let statement ← readOne (readList fuel) token
        return statement :: (← readList fuel terminator)

/-- The statements of a text with its tokens. Comments are passed over. -/
def ofTokens (source : List Char) (tokens : List Token) : Except Diagnostic (List Statement) :=
  let code := tokens.filter fun t => !t.lexeme.isComment
  (·.1) <$> (readList (code.length + 1) .endOfText).run (.ofTokens source code)

/-- The statements of a text. -/
def ofSource (source : String) : Except Diagnostic (List Statement) :=
  Token.ofSource source >>= ofTokens source.toList

end Statement

end PipelineScript
