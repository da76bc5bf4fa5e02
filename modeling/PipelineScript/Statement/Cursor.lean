import PipelineScript.Statement
import PipelineScript.Statement.Fault
import PipelineScript.Text.Slice

/-! # Reading from a list of tokens

A `Cursor` stands between the tokens that were read and those still ahead. A `Reading` moves it
forward or stops with a diagnostic that shows the tokens around the place. -/

namespace PipelineScript

structure Cursor where
  /-- The text that the tokens were cut from; expressions keep a stretch of it. -/
  source : List Char
  /-- The tokens behind, the nearest first. -/
  passed : List Token
  ahead : List Token
deriving Repr

namespace Cursor

def ofTokens (source : List Char) (tokens : List Token) : Cursor := ⟨source, [], tokens⟩

def head? (c : Cursor) : Option Token := c.ahead.head?

def second? (c : Cursor) : Option Token := (c.ahead.drop 1).head?

/-- The line of the next token, or of the last one at the end. -/
def line (c : Cursor) : Nat := ((c.head?.or c.passed.head?).map Token.line).getD 1

def advance (c : Cursor) (n : Nat) : Cursor :=
  { c with passed := (c.ahead.take n).reverse ++ c.passed, ahead := c.ahead.drop n }

def skipWhile (c : Cursor) (p : Token → Bool) : Cursor := c.advance (c.ahead.takeWhile p).length

def isAtMark (c : Cursor) (p : Punct) : Bool := c.head?.any fun t => t.isPunct p

def isAtKeyword (c : Cursor) (k : Keyword) : Bool := c.head?.any fun t => t.isKeyword k

/-- A statement ends before a line end, before the end of its block and at the end of the text. -/
def isAtStatementEnd (c : Cursor) : Bool :=
  c.head?.all fun t => t.isLineEnd || t.isPunct .closeBrace

/-- Is a name with an opening parenthesis ahead? -/
def isAtInvocation (c : Cursor) : Bool :=
  match c.ahead with
  | ⟨.ident _, _, _, _⟩ :: next :: _ => next.isPunct .openParen
  | _ => false

/-- At most twenty tokens around the cursor, eight of them behind it, with the next one marked. -/
def surroundings (c : Cursor) : String :=
  let behind := (c.passed.take 8).reverse.map Token.shown
  let onward := (c.ahead.take (20 - behind.length)).map Token.shown
  let marked := match onward with
    | [] => ["»<end of input>«"]
    | here :: rest => s!"»{here}«" :: rest
  " ".intercalate (behind ++ marked)

def diagnose (c : Cursor) (cause : StatementCause) : Diagnostic :=
  ⟨c.line, .statement, cause.message, c.surroundings, cause.suggestion⟩

/-- The source from the first of some tokens through the last, if there are any. -/
def sourceOf? (source : List Char) (tokens : List Token) : Option SourceExpr :=
  match tokens.head?, tokens.getLast? with
  | some first, some last =>
    some ⟨String.ofList (Text.trim (Text.slice first.start last.stop source))⟩
  | _, _ => none

end Cursor

namespace Token

def opens (t : Token) : Bool := t.isPunct .openParen || t.isPunct .openBracket

def closes (t : Token) : Bool := t.isPunct .closeParen || t.isPunct .closeBracket

/-- How many round and square brackets are open after the token. -/
def depthAfter (depth : Nat) (t : Token) : Nat :=
  if t.opens then depth + 1 else if t.closes then depth - 1 else depth

/-- Outside of brackets an expression ends before these. -/
def endsExpression (t : Token) : Bool :=
  t.isLineEnd || t.isPunct .openBrace || t.isPunct .closeBrace || t.closes

/-- The number of tokens, within `depth` open brackets, before the end of the expression. -/
def expressionLength (stop : Token → Bool) : Nat → List Token → Nat
  | _, [] => 0
  | depth, t :: rest =>
    if depth = 0 ∧ (t.endsExpression || stop t) then 0
    else expressionLength stop (t.depthAfter depth) rest + 1

/-- The number of tokens before the parenthesis that closes, with `depth` of them open inside. -/
def closingDistance? : Nat → List Token → Option Nat
  | _, [] => none
  | depth, t :: rest =>
    if t.isPunct .closeParen then
      if depth = 0 then some 0 else (closingDistance? (depth - 1) rest).map (· + 1)
    else if t.isPunct .openParen then (closingDistance? (depth + 1) rest).map (· + 1)
    else (closingDistance? depth rest).map (· + 1)

/-- The tokens on both sides of the first range operator outside of brackets; does the range
include its end? -/
def splitRange? : Nat → List Token → Option (List Token × Bool × List Token)
  | _, [] => none
  | depth, t :: rest =>
    if depth = 0 ∧ (t.isPunct .rangeThrough || t.isPunct .rangeBelow) then
      some ([], t.isPunct .rangeThrough, rest)
    else
      (splitRange? (t.depthAfter depth) rest).map fun (before, inclusive, after) =>
        (t :: before, inclusive, after)

/-- The further parts of a dotted name: a dot counts only before another name. -/
def dottedParts : List Token → List String
  | dot :: ⟨.ident name, _, _, _⟩ :: rest =>
    if dot.isPunct .dot then name :: dottedParts rest else []
  | _ => []

end Token

/-- A step of reading: it stops with a diagnostic or gives a result and moves the cursor. -/
abbrev Reading (α : Type) := StateT Cursor (Except Diagnostic) α

namespace Reading

def fail {α : Type} (cause : StatementCause) : Reading α := fun c => .error (c.diagnose cause)

def advance (n : Nat) : Reading Unit := modify fun c => c.advance n

def skipWhile (p : Token → Bool) : Reading Unit := modify fun c => c.skipWhile p

def line : Reading Nat := return (← get).line

def accept (p : Punct) : Reading Bool := do
  if (← get).isAtMark p then advance 1; return true
  else return false

def acceptKeyword (k : Keyword) : Reading Bool := do
  if (← get).isAtKeyword k then advance 1; return true
  else return false

/-- A mark that has to come; `what` says which one and what it is for. -/
def mark (p : Punct) (what : String) : Reading Unit := do
  unless ← accept p do fail (.expectedMark p what)

def keyword (k : Keyword) : Reading Unit := do
  unless ← acceptKeyword k do fail (.expectedKeyword k)

/-- A name that the script may bind. -/
def name (what : String) : Reading String := do
  match (← get).head?.map Token.lexeme with
  | some (.ident name) => advance 1; return name
  | some (.systemIdent name) => fail (.reservedName name)
  | some (.keyword word) => fail (.keywordName word what)
  | _ => fail (.expected what)

/-- A name with parts, such as the path of an import. -/
def dottedName (what : String) : Reading (List String) := do
  let first ← name what
  let more := Token.dottedParts (← get).ahead
  advance (2 * more.length)
  return first :: more

/-- The next `n` tokens. -/
def take (n : Nat) : Reading (List Token) := do
  let c ← get
  set (c.advance n)
  return c.ahead.take n

def sourceOf? (tokens : List Token) : Reading (Option SourceExpr) :=
  return Cursor.sourceOf? (← get).source tokens

def sourceOf (tokens : List Token) (cause : StatementCause) : Reading SourceExpr := do
  match ← sourceOf? tokens with
  | some e => return e
  | none => fail cause

def expressionTokens (stop : Token → Bool) : Reading (List Token) := do
  take (Token.expressionLength stop 0 (← get).ahead)

/-- An expression that ends with the statement or before a token that `stop` accepts. -/
def expression (stop : Token → Bool) (what : String) : Reading SourceExpr := do
  sourceOf (← expressionTokens stop) (.expected what)

/-- An expression that ends with the statement. -/
def restOfStatement (what : String) : Reading SourceExpr := expression (fun _ => false) what

/-- An expression in parentheses. It may run over several lines. -/
def parenthesized (what : String) : Reading SourceExpr := do
  mark .openParen s!"'(' before the {what}"
  match Token.closingDistance? 0 (← get).ahead with
  | none =>
    advance (← get).ahead.length
    fail (.openParenthesis what)
  | some n =>
    let inner ← sourceOf (← take n) (.emptyParentheses what)
    advance 1
    return inner

/-- The arguments through the closing parenthesis, at least one. -/
def arguments : Nat → Reading (List SourceExpr)
  | 0 => fail (.expected "an argument")
  | fuel + 1 => do
    let arg ← expression (fun t => t.isPunct .comma) "an argument"
    if ← accept .comma then
      return arg :: (← arguments fuel)
    else
      mark .closeParen "',' or ')' after the argument"
      return [arg]

/-- A name, perhaps dotted, with its arguments. -/
def invocation : Reading Invocation := do
  let parts ← dottedName "a task or function name"
  mark .openParen "'(' to start the argument list"
  let name := ".".intercalate parts
  if ← accept .closeParen then return ⟨name, []⟩
  else return ⟨name, ← arguments (← get).ahead.length⟩

/-- After a statement comes its end. -/
def endOf (statement : String) : Reading Unit := do
  let c ← get
  unless c.isAtStatementEnd do
    fail (.trailing ((c.head?.map Token.shown).getD "") statement)

end Reading

end PipelineScript
