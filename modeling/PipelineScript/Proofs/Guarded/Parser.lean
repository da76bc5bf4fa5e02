import Mathlib
import PipelineScript.Proofs.Guarded.Trap
import PipelineScript.Statement.Reader

/-! # Parsing by places

A parser keeps the place of the next token in a row of tokens. It cuts expressions out of the text,
from the byte where one token starts to the byte where another stops. Each rule for statements says
where it applies, and reads a statement through its end. -/

namespace PipelineScript

open Guarded

abbrev Parsing (α : Type) := Guarded Nat Diagnostic α

namespace Parsing

variable (text : List Char) (tokens : List Token)

/-! ## Tokens -/

def peekNth (n : Nat) : Parsing (Option Token) := return tokens[(← get) + n]?

def peek : Parsing (Option Token) := peekNth tokens 0

def move : Parsing Unit := modify fun place => place + 1

def advance : Parsing (Option Token) := do
  match ← peek tokens with
  | some token =>
    move
    return some token
  | none => return none

/-- The line of the next token, or of the last one at the end. -/
def line : Parsing Nat := return (((← peek tokens).or tokens.getLast?).map Token.line).getD 1

/-- At most twenty tokens around a place, with their places. -/
def around (place : Nat) : List (Token × Nat) :=
  (tokens.zipIdx.take (min (place - 8 + 20) tokens.length)).drop (place - 8)

/-- A token as errors at `place` show it. -/
def shownFrom (place : Nat) (entry : Token × Nat) : String :=
  let here := entry.1.shown
  if entry.2 = place then s!"»{here}«" else here

def context (place : Nat) : String :=
  " ".intercalate ((around tokens place).map (shownFrom place) ++
    if tokens.length ≤ place then ["»<end of input>«"] else [])

def fail {α : Type} (cause : StatementCause) : Parsing α := do
  fault ⟨← line tokens, .statement, cause.message, context tokens (← get), cause.suggestion⟩

/-- Every turn of a loop moves on by a token. -/
def turns : Nat := tokens.length + 1

def passWhile (p : Token → Bool) : Nat → Parsing Unit
  | 0 => trap .endless
  | turns + 1 => do
    if (← peek tokens).any p then
      move
      passWhile p turns
    else return ()

def skipWhile (p : Token → Bool) : Parsing Unit := passWhile tokens p (turns tokens)

/-- Moves on if the next token is one of some. Is it? -/
def acceptIf (p : Token → Bool) : Parsing Bool := do
  if (← peek tokens).any p then
    move
    return true
  else return false

def accept (p : Punct) : Parsing Bool := acceptIf tokens fun t => t.isPunct p

def acceptKeyword (k : Keyword) : Parsing Bool := acceptIf tokens fun t => t.isKeyword k

def mark (p : Punct) (what : String) : Parsing Unit := do
  unless ← accept tokens p do fail tokens (.expectedMark p what)

def keyword (k : Keyword) : Parsing Unit := do
  unless ← acceptKeyword tokens k do fail tokens (.expectedKeyword k)

def name (what : String) : Parsing String := do
  match (← peek tokens).map Token.lexeme with
  | some (.ident name) =>
    move
    return name
  | some (.systemIdent name) => fail tokens (.reservedName name)
  | some (.keyword word) => fail tokens (.keywordName word what)
  | _ => fail tokens (.expected what)

def isName (t : Token) : Bool :=
  match t.lexeme with
  | .ident _ => true
  | _ => false

/-- The further parts of a dotted name. -/
def furtherParts (what : String) : Nat → Parsing (List String)
  | 0 => trap .endless
  | turns + 1 => do
    if ((← peek tokens).any fun t => t.isPunct .dot) ∧ (← peekNth tokens 1).any isName then
      move
      let part ← name tokens what
      return part :: (← furtherParts what turns)
    else return []

def dottedName (what : String) : Parsing (List String) := do
  let first ← name tokens what
  return first :: (← furtherParts tokens what (turns tokens))

def isEnd (next : Option Token) : Bool := next.all fun t => t.isLineEnd || t.isPunct .closeBrace

def atEnd : Parsing Bool := return isEnd (← peek tokens)

def endOf (statement : String) : Parsing Unit := do
  unless ← atEnd tokens do
    fail tokens (.trailing (((← peek tokens).map Token.shown).getD "") statement)

/-! ## Expressions -/

def depthAfter (depth : Nat) (token : Token) : Parsing Nat :=
  if token.opens then return depth + 1
  else if token.closes then minus depth 1
  else return depth

def passExpression (stop : Token → Bool) : Nat → Nat → Parsing Unit
  | 0, _ => trap .endless
  | turns + 1, depth => do
    match ← peek tokens with
    | some token =>
      if depth = 0 ∧ (token.endsExpression || stop token) then return ()
      else
        let depth ← depthAfter depth token
        move
        passExpression stop turns depth
    | none => return ()

/-- The places that an expression begins at and ends before. -/
def expressionPlaces (stop : Token → Bool) : Parsing (Nat × Nat) := do
  let start ← get
  passExpression tokens stop (turns tokens) 0
  return (start, ← get)

/-- The text of the tokens from one place up to another, if there are any. -/
def sourceBetween? (start stop : Nat) : Parsing (Option SourceExpr) := do
  if stop ≤ start then return none
  else
    let first ← at_ tokens start
    let last ← at_ tokens (← minus stop 1)
    let written ← demand .slice (Text.between? first.start last.stop text)
    return some ⟨String.ofList (Text.trim written)⟩

def sourceBetween (start stop : Nat) (cause : StatementCause) : Parsing SourceExpr := do
  match ← sourceBetween? text tokens start stop with
  | some e => return e
  | none => fail tokens cause

def expression (stop : Token → Bool) (what : String) : Parsing SourceExpr := do
  let (start, stop) ← expressionPlaces tokens stop
  sourceBetween text tokens start stop (.expected what)

def restOfStatement (what : String) : Parsing SourceExpr :=
  expression text tokens (fun _ => false) what

/-- Up to the parenthesis that closes, with `depth` of them open inside. -/
def passParenthesized (what : String) : Nat → Nat → Parsing Unit
  | 0, _ => trap .endless
  | turns + 1, depth => do
    match ← peek tokens with
    | none => fail tokens (.openParenthesis what)
    | some token =>
      if token.isPunct .openParen then
        move
        passParenthesized what turns (depth + 1)
      else if token.isPunct .closeParen then
        if depth = 0 then return ()
        else
          let depth ← minus depth 1
          move
          passParenthesized what turns depth
      else
        move
        passParenthesized what turns depth

def parenthesized (what : String) : Parsing SourceExpr := do
  mark tokens .openParen s!"'(' before the {what}"
  let start ← get
  passParenthesized tokens what (turns tokens) 0
  let inner ← sourceBetween text tokens start (← get) (.emptyParentheses what)
  let _ ← advance tokens
  return inner

/-! ## Calls -/

def arguments : Nat → Parsing (List SourceExpr)
  | 0 => trap .endless
  | turns + 1 => do
    let arg ← expression text tokens (fun t => t.isPunct .comma) "an argument"
    if ← accept tokens .comma then
      return arg :: (← arguments turns)
    else
      mark tokens .closeParen "',' or ')' after the argument"
      return [arg]

def invocation : Parsing Invocation := do
  let parts ← dottedName tokens "a task or function name"
  mark tokens .openParen "'(' to start the argument list"
  let name := ".".intercalate parts
  if ← accept tokens .closeParen then return ⟨name, []⟩
  else return ⟨name, ← arguments text tokens (turns tokens)⟩

/-- What a parser finds ahead and where it stops, without moving. A fault is no find. -/
def lookAhead {α : Type} (parser : Parsing α) : Parsing (Option (α × Nat)) := fun place =>
  match parser place with
  | .ok found => .ok (some found, place)
  | .error (.inr _) => .ok (none, place)
  | .error (.inl t) => .error (.inl t)

/-- A call that fills the rest of the statement. -/
def bareCall? : Parsing (Option Source) := do
  let start ← get
  match ← lookAhead (invocation text tokens) with
  | none => return none
  | some (call, stop) =>
    if isEnd tokens[stop]? then
      match ← sourceBetween? text tokens start stop with
      | some source =>
        set stop
        return some (.invoke call source)
      | none => return none
    else return none

def isCallAhead : Parsing Bool :=
  return (← peek tokens).any isName && (← peekNth tokens 1).any fun t => t.isPunct .openParen

def value : Parsing Source := return .expr (← restOfStatement text tokens "a value")

/-- What is stored: the result of a task, a bare call, or any other expression. -/
def stored : Parsing Source := do
  if ← acceptKeyword tokens .run then return .run (← invocation text tokens)
  else if ← isCallAhead tokens then
    match ← bareCall? text tokens with
    | some source => return source
    | none => value text tokens
  else value text tokens

/-! ## Statements on a line -/

def importPath : Parsing Kind := do
  let path ← dottedName tokens "an import path"
  let localName ←
    if ← acceptKeyword tokens .as_ then name tokens "an import alias"
    else pure (path.getLast?.getD "")
  return .importPath (".".intercalate path) localName

def declare : Parsing Kind := do
  let name ← name tokens "a variable name"
  let declaredType ←
    if ← accept tokens .colon then some <$> dottedName tokens "a type name" else pure none
  let value ← if ← accept tokens .assign then some <$> stored text tokens else pure none
  return .declare name (declaredType.map fun parts => ".".intercalate parts) value

def assign : Parsing Kind := do
  let name ← name tokens "a variable name"
  mark tokens .assign "'='"
  return .assign name (← stored text tokens)

def taskKey : Parsing String := do
  match (← peek tokens).map Token.lexeme with
  | some (.ident key) | some (.str key) =>
    move
    return key
  | _ => fail tokens .noTaskKey

/-- The entries of a task block through its closing brace; the keys `seen` are taken. -/
def taskEntries : Nat → List String → Parsing (List TaskEntry)
  | 0, _ => trap .endless
  | turns + 1, seen => do
    skipWhile tokens Statement.isEntryGap
    if ← accept tokens .closeBrace then return []
    else
      let line ← line tokens
      let key ← taskKey tokens
      if seen.contains key then fail tokens (.duplicateTaskKey key)
      mark tokens .colon "':' after the task key"
      let call ← invocation text tokens
      unless (← atEnd tokens) || (← peek tokens).any (fun t => t.isPunct .comma) do
        fail tokens .openTaskEntry
      return ⟨key, call, line⟩ :: (← taskEntries turns (key :: seen))

def taskBlock : Parsing Kind := do
  let target ← name tokens "a result variable name"
  mark tokens .openBrace "'\x7b' to open the task list"
  return .taskBlock target (← taskEntries text tokens (turns tokens) [])

def returnValue : Parsing Kind := do
  if ← atEnd tokens then return .returnValue none
  else return .returnValue (← restOfStatement text tokens "the return value")

/-! ## Statements with a block -/

variable (block : Terminator → Parsing (List Statement))

def braced : Parsing (List Statement) := do
  mark tokens .openBrace "'\x7b' to open the block"
  let body ← block .closeBrace
  mark tokens .closeBrace "'\x7d' to close the block"
  return body

/-- Passes over an `else`, perhaps on a later line, and gives its line. -/
def elseLine? : Parsing (Option Nat) := do
  match ← lookAhead (skipWhile tokens Token.isLineEnd) with
  | none => return none
  | some (_, place) =>
    if tokens[place]?.any fun t => t.isKeyword .else_ then
      set place
      let line ← line tokens
      let _ ← advance tokens
      return some line
    else return none

/-- The further arms of a conditional. -/
def furtherArms : Nat → Parsing (List Statement)
  | 0 => trap .endless
  | turns + 1 => do
    match ← elseLine? tokens with
    | none => return []
    | some line =>
      if ← acceptKeyword tokens .if_ then
        let condition ← parenthesized text tokens "else-if condition"
        let body ← braced tokens block
        return .ofBlock (.branch condition) line body :: (← furtherArms turns)
      else
        return [.ofBlock .otherwise line (← braced tokens block)]

def conditional (line : Nat) : Parsing Statement := do
  let condition ← parenthesized text tokens "if condition"
  let body ← braced tokens block
  let more ← furtherArms text tokens block (turns tokens)
  return .ofBlock .conditional line (.ofBlock (.branch condition) line body :: more)

/-- The arms of a switch through its closing brace. -/
def switchArms : Nat → Parsing (List Statement)
  | 0 => trap .endless
  | turns + 1 => do
    skipWhile tokens Token.isLineEnd
    if ← accept tokens .closeBrace then return []
    else
      let line ← line tokens
      if ← acceptKeyword tokens .case_ then
        let value ← expression text tokens (fun t => t.isPunct .colon) "a case value"
        mark tokens .colon "':' after the case value"
        let body ← block .nextArm
        return .ofBlock (.case_ value) line body :: (← switchArms turns)
      else if ← acceptKeyword tokens .default_ then
        mark tokens .colon "':' after 'default'"
        let body ← block .nextArm
        return .ofBlock .fallback line body :: (← switchArms turns)
      else fail tokens .noArm

def switch (line : Nat) : Parsing Statement := do
  let subject ← parenthesized text tokens "switch subject"
  mark tokens .openBrace "'\x7b' to open the switch body"
  return .ofBlock (.switch subject) line (← switchArms text tokens block (turns tokens))

/-- The place of the first range operator outside of brackets. Brackets may close too often. -/
def rangePlace? : Nat → List (Token × Nat) → Option Nat
  | _, [] => none
  | depth, (token, place) :: rest =>
    if token.opens then rangePlace? (depth + 1) rest
    else if token.closes then rangePlace? (depth - 1) rest
    else if depth = 0 ∧ (token.isPunct .rangeThrough || token.isPunct .rangeBelow) then some place
    else rangePlace? depth rest

def iterable : Parsing Iterable := do
  let (start, stop) ← expressionPlaces tokens fun _ => false
  match rangePlace? 0 ((tokens.zipIdx.take stop).drop start) with
  | some place =>
    let first ← sourceBetween text tokens start place .noRangeStart
    let last ← sourceBetween text tokens (place + 1) stop .noRangeStop
    let operator ← at_ tokens place
    return .range first last (operator.isPunct .rangeThrough)
  | none => return .each (← sourceBetween text tokens start stop .noIterable)

def forLoop (line : Nat) : Parsing Statement := do
  let variable_ ← name tokens "a loop variable"
  keyword tokens .in_
  let iterable ← iterable text tokens
  return .ofBlock (.forLoop variable_ iterable) line (← braced tokens block)

def whileLoop (line : Nat) : Parsing Statement := do
  let condition ← parenthesized text tokens "while condition"
  return .ofBlock (.whileLoop condition) line (← braced tokens block)

/-- The parameters through the closing parenthesis, at least one; the names `seen` are taken. -/
def parameters : Nat → List String → Parsing (List String)
  | 0, _ => trap .endless
  | turns + 1, seen => do
    let param ← name tokens "a parameter name"
    if seen.contains param then fail tokens (.duplicateParameter param)
    if ← accept tokens .comma then
      return param :: (← parameters turns (param :: seen))
    else
      mark tokens .closeParen "',' or ')' in the parameter list"
      return [param]

def function (line : Nat) : Parsing Statement := do
  let name ← name tokens "a function name"
  mark tokens .openParen "'(' to start the parameter list"
  let params ←
    if ← accept tokens .closeParen then pure []
    else parameters tokens (turns tokens) []
  return .ofBlock (.function name params) line (← braced tokens block)

/-! ## Rules -/

/-- A statement, which is told its line, and its end. -/
def ended (label : String) (read : Nat → Parsing Statement) : Parsing Statement := do
  let line ← line tokens
  let statement ← read line
  endOf tokens label
  return statement

/-- What the keyword of a loop control means, and what it is called in messages. -/
def loopControl? : Option Token → Kind × String
  | some token =>
    if token.isKeyword .break_ then (.breakLoop, "break")
    else if token.isKeyword .breakAll then (.breakAll, "breakAll")
    else (.continueLoop, "continue")
  | none => (.continueLoop, "continue")

def loopControl : Parsing Statement := do
  let line ← line tokens
  let (kind, label) := loopControl? (← advance tokens)
  endOf tokens label
  return .ofLine kind line

/-- A rule for statements: the places where it applies, and how it reads one. -/
structure Rule where
  applies : Nat → Bool
  parse : Parsing Statement

/-- A rule for statements that begin with a keyword. It is what they are called in messages, too. -/
def Rule.ofKeyword (word : Keyword) (read : Nat → Parsing Statement) : Rule where
  applies place := tokens[place]?.any fun t => t.isKeyword word
  parse := ended tokens word.text fun line => do
    let _ ← advance tokens
    read line

/-- A rule for statements that begin with a name and a mark behind it. -/
def Rule.ofMark (isFirst : Token → Bool) (p : Punct) (label : String)
    (read : Nat → Parsing Statement) : Rule where
  applies place := tokens[place]?.any isFirst && tokens[place + 1]?.any fun t => t.isPunct p
  parse := ended tokens label read

def isLoopControl (t : Token) : Bool :=
  t.isKeyword .break_ || t.isKeyword .breakAll || t.isKeyword .continue_

def isSystemName (t : Token) : Bool :=
  match t.lexeme with
  | .systemIdent _ => true
  | _ => false

/-- The rules for statements, in the order in which they are tried. -/
def rules : List Rule :=
  [.ofKeyword tokens .import_ fun line => (.ofLine · line) <$> importPath tokens,
    .ofKeyword tokens .declare fun line => (.ofLine · line) <$> declare text tokens,
    .ofKeyword tokens .run fun line => return .ofLine (.run (← invocation text tokens)) line,
    .ofKeyword tokens .task fun line => (.ofLine · line) <$> taskBlock text tokens,
    .ofKeyword tokens .export_ fun line =>
      return .ofLine (.exportValue (← restOfStatement text tokens "the value to export")) line,
    .ofKeyword tokens .echo fun line =>
      return .ofLine (.echo (← restOfStatement text tokens "the value to echo")) line,
    .ofKeyword tokens .if_ (conditional text tokens block),
    .ofKeyword tokens .switch (switch text tokens block),
    .ofKeyword tokens .for_ (forLoop text tokens block),
    .ofKeyword tokens .while_ (whileLoop text tokens block),
    ⟨fun place => tokens[place]?.any isLoopControl, loopControl tokens⟩,
    .ofKeyword tokens .return_ fun line => (.ofLine · line) <$> returnValue text tokens,
    .ofKeyword tokens .function (function tokens block),
    .ofMark tokens (fun t => isName t || isSystemName t) .assign "assignment" fun line =>
      (.ofLine · line) <$> assign text tokens,
    .ofMark tokens isName .openParen "call" fun line =>
      return .ofLine (.call (← invocation text tokens)) line]

/-- The statement that begins with `token`, by the first rule that applies. -/
def statement (token : Token) : Parsing Statement := do
  let place ← get
  match (rules text tokens block).find? fun rule => rule.applies place with
  | some rule => rule.parse
  | none => fail tokens (.unrecognized token.shown)

/-- The statements up to `terminator`. -/
def statements : Nat → Terminator → Parsing (List Statement)
  | 0, _ => trap .endless
  | turns + 1, terminator => do
    skipWhile tokens Token.isLineEnd
    match ← peek tokens with
    | none => if terminator = .endOfText then return [] else fail tokens .openBlock
    | some token =>
      if terminator.stopsAt token then return []
      else if terminator = .endOfText ∧ token.isPunct .closeBrace then fail tokens .strayClose
      else
        let statement ← statement text tokens (statements turns) token
        return statement :: (← statements turns terminator)

/-- The statements of a text with its tokens. Comments are passed over. -/
def parse (text : List Char) (tokens : List Token) :
    Except (Trap ⊕ Diagnostic) (List Statement) := do
  let code := tokens.filter fun t => !t.lexeme.isComment
  let (statements, _) ← statements text code (turns code) .endOfText 0
  return statements

end Parsing

end PipelineScript
