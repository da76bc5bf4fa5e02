import PipelineScript.Expression
import PipelineScript.Numeral.Reading
import PipelineScript.Token.Lexer

/-! # Reading expressions

Every reader takes lexemes and gives a tree with the lexemes that follow it. Binary operators are
read by climbing: `readBinary level` reads an expression of operators of that level and above, and
the right side of an operator starts one level up, so that equal levels group to the left.

The readers call each other at most six deep before one of them takes a lexeme, which is what the
fuel of `ofLexemes` allows for. -/

namespace PipelineScript.Expression

open ExpressionFault

/-- The lexemes after a mark that has to come. -/
def skipMark (p : Punct) : List Lexeme → Except ExpressionFault (List Lexeme)
  | [] => .error (.expected p none)
  | t :: rest => if t = .punct p then .ok rest else .error (.expected p (some t.shown))

/-- The binary operator ahead, if its level is high enough. -/
def operator? (level : Nat) : List Lexeme → Option (BinaryOp × List Lexeme)
  | .punct p :: rest =>
    match BinaryOp.ofMark? p with
    | some op => if level ≤ op.level then some (op, rest) else none
    | none => none
  | _ => none

/-- Fields may be named like keywords. -/
def fieldName? : Lexeme → Option String
  | .ident name => some name
  | .keyword word => some word.text
  | _ => none

mutual

/-- An expression of any level. -/
def readChoice : Nat → List Lexeme → Except ExpressionFault (Expression × List Lexeme)
  | 0, _ => .error .unexpectedEnd
  | fuel + 1, ts => do
    let (condition, ts) ← readBinary fuel 0 ts
    match ts with
    | .punct .question :: ts =>
      let (yes, ts) ← readChoice fuel ts
      let ts ← skipMark .colon ts
      let (no, ts) ← readChoice fuel ts
      return (.choice condition yes no, ts)
    | ts => return (condition, ts)

def readBinary : Nat → Nat → List Lexeme → Except ExpressionFault (Expression × List Lexeme)
  | 0, _, _ => .error .unexpectedEnd
  | fuel + 1, level, ts => do
    let (left, ts) ← readUnary fuel ts
    readOperators fuel level left ts

/-- The operators that go on from `left`, with their right sides. -/
def readOperators :
    Nat → Nat → Expression → List Lexeme → Except ExpressionFault (Expression × List Lexeme)
  | 0, _, _, _ => .error .unexpectedEnd
  | fuel + 1, level, left, ts => do
    match operator? level ts with
    | some (op, ts) =>
      let (right, ts) ← readBinary fuel (op.level + 1) ts
      readOperators fuel level (.binary op left right) ts
    | none => return (left, ts)

def readUnary : Nat → List Lexeme → Except ExpressionFault (Expression × List Lexeme)
  | 0, _ => .error .unexpectedEnd
  | fuel + 1, ts => do
    match ts with
    | .punct .minus :: ts =>
      let (operand, ts) ← readUnary fuel ts
      return (.unary .negate operand, ts)
    | .punct .bang :: ts =>
      let (operand, ts) ← readUnary fuel ts
      return (.unary .not operand, ts)
    | ts =>
      let (target, ts) ← readPrimary fuel ts
      readAccesses fuel target ts

/-- The fields and items that are taken from `target`. -/
def readAccesses : Nat → Expression → List Lexeme → Except ExpressionFault (Expression × List Lexeme)
  | 0, _, _ => .error .unexpectedEnd
  | fuel + 1, target, ts => do
    match ts with
    | .punct .dot :: ts =>
      match ts with
      | [] => .error .noFieldName
      | t :: ts =>
        match fieldName? t with
        | some name => readAccesses fuel (.field target name) ts
        | none => .error .noFieldName
    | .punct .openBracket :: ts =>
      let (index, ts) ← readChoice fuel ts
      let ts ← skipMark .closeBracket ts
      readAccesses fuel (.item target index) ts
    | ts => return (target, ts)

def readPrimary : Nat → List Lexeme → Except ExpressionFault (Expression × List Lexeme)
  | 0, _ => .error .unexpectedEnd
  | fuel + 1, ts => do
    match ts with
    | [] => .error .unexpectedEnd
    | .int value :: ts => return (.literal (.int value), ts)
    | .float digits :: ts =>
      match Numeral.readFloat? digits.toList with
      | some value => return (.literal (.float value), ts)
      | none => .error (.badNumber digits)
    | .str contents :: ts => return (.literal (.str contents), ts)
    | .keyword .true_ :: ts => return (.literal (.bool true), ts)
    | .keyword .false_ :: ts => return (.literal (.bool false), ts)
    | .keyword .null :: ts => return (.literal .null, ts)
    | .keyword word :: _ => .error (.keyword word)
    | .systemIdent name :: ts => return (.variable_ name, ts)
    | .ident name :: .punct .openParen :: ts =>
      let (args, ts) ← readList fuel .closeParen ts
      return (.call name args, ts)
    | .ident name :: ts => return (.variable_ name, ts)
    | .punct .openParen :: ts =>
      let (inner, ts) ← readChoice fuel ts
      let ts ← skipMark .closeParen ts
      return (inner, ts)
    | .punct .openBracket :: ts =>
      let (items, ts) ← readList fuel .closeBracket ts
      return (.list items, ts)
    | t :: _ => .error (.unexpected t.shown)

/-- Expressions with commas between them, through the mark `close`. -/
def readList :
    Nat → Punct → List Lexeme → Except ExpressionFault (List Expression × List Lexeme)
  | 0, _, _ => .error .unexpectedEnd
  | fuel + 1, close, ts => do
    if ts.head? = some (.punct close) then return ([], ts.drop 1)
    else readItems fuel close ts

/-- As `readList`, with at least one expression. -/
def readItems :
    Nat → Punct → List Lexeme → Except ExpressionFault (List Expression × List Lexeme)
  | 0, _, _ => .error .unexpectedEnd
  | fuel + 1, close, ts => do
    let (first, ts) ← readChoice fuel ts
    match ts with
    | .punct .comma :: ts =>
      let (items, ts) ← readItems fuel close ts
      return (first :: items, ts)
    | ts =>
      let ts ← skipMark close ts
      return ([first], ts)

end

/-- The tree of a row of lexemes that is one expression. -/
def ofLexemes (ts : List Lexeme) : Except ExpressionFault Expression := do
  let (tree, rest) ← readChoice (8 * (ts.length + 1)) ts
  match rest with
  | [] => return tree
  | t :: _ => .error (.unexpected t.shown)

/-- The lexemes that count in an expression: it may run over several lines. -/
def lexemesOf (tokens : List Token) : List Lexeme :=
  (tokens.map Token.lexeme).filter fun t => !t.isLineEnd && !t.isComment

/-- The tree of a text that is one expression. -/
def ofSource (source : String) : Except ExpressionFault Expression := do
  let tokens ← (Token.ofChars source.toList).mapError fun fault => .lexical fault.cause
  ofLexemes (lexemesOf tokens)

end PipelineScript.Expression
