import PipelineScript.Token.Balance
import PipelineScript.Token.Literal

/-! # Scanning

A text is cut into tokens from left to right; the first character decides what is read. Reading a
lexeme does not look at its place: lines and offsets are added by `scan`, which counts what each
lexeme takes. -/

namespace PipelineScript

open Text

namespace Lexeme

/-- The characters of a block comment after its opening, through the closing. -/
def blockCommentLength? : List Char → Option Nat
  | [] => none
  | '*' :: '/' :: _ => some 2
  | _ :: rest => (blockCommentLength? rest).map (· + 1)

def isWordStart (c : Char) : Bool := isAlphabetic c || c == '_'

/-- A word is a keyword if it is spelled like one. -/
def word (name : String) : Lexeme :=
  match Keyword.ofText? name with
  | some k => .keyword k
  | none => .ident name

def readOperator (c : Char) (rest : List Char) : Except LexicalCause Taken :=
  match Punct.read? (c :: rest) with
  | some p => .ok ⟨.punct p, p.chars.length - 1⟩
  | none => .error (.unexpected c)

/-- The lexeme that starts with `c`, which is no blank. A fault comes with the number of line feeds
that the lexeme passed before it. -/
def read (c : Char) (rest : List Char) : Except (Nat × LexicalCause) Taken :=
  if c = '\n' then .ok ⟨.lineEnd false, 0⟩
  else if c = ';' then .ok ⟨.lineEnd true, 0⟩
  else if c = '/' ∧ rest.head? = some '/' then
    let body := rest.takeWhile (· != '\n')
    .ok ⟨.comment (String.ofList (c :: body)), body.length⟩
  else if c = '/' ∧ rest.head? = some '*' then
    match blockCommentLength? (rest.drop 1) with
    | some n => .ok ⟨.comment (String.ofList (c :: rest.take (n + 1))), n + 1⟩
    | none => .error (0, .unterminatedComment)
  else if isWordStart c then
    let body := rest.takeWhile Literal.isWordPart
    .ok ⟨word (String.ofList (c :: body)), body.length⟩
  else if c = '$' ∧ rest.head?.any isWordStart then
    let body := rest.takeWhile Literal.isWordPart
    .ok ⟨.systemIdent (String.ofList (c :: body)), body.length⟩
  else if isAsciiDigit c then (Literal.readNumber c rest).mapError fun cause => (0, cause)
  else if c = '"' then
    (Literal.readString 0 rest).map fun (contents, n) => ⟨.str (String.ofList contents), n⟩
  else (readOperator c rest).mapError fun cause => (0, cause)

end Lexeme

/-- Blanks stand between tokens; a line feed is a token of its own. -/
def isSpace (c : Char) : Bool := c != '\n' && isBlank c

namespace Token

/-- The tokens of a text that starts on `line` at byte `offset`. -/
def scan (line offset : Nat) : List Char → Except LexicalFault (List Token)
  | [] => .ok []
  | c :: rest =>
    if isSpace c then scan line (offset + c.utf8Size) rest
    else
      match Lexeme.read c rest with
      | .error (passed, cause) => .error ⟨line + passed, cause⟩
      | .ok taken =>
        let body := rest.take taken.more
        let stop := offset + utf8Length (c :: body)
        match scan (line + newlines (c :: body)) stop (rest.drop taken.more) with
        | .error fault => .error fault
        | .ok tokens => .ok (⟨taken.lexeme, line, offset, stop⟩ :: tokens)
termination_by cs => cs.length

/-- The tokens of a text whose brackets and strings are balanced. -/
def ofChars (source : List Char) : Except LexicalFault (List Token) := do
  Balance.check source
  scan 1 0 source

def ofSource (source : String) : Except Diagnostic (List Token) :=
  (ofChars source.toList).mapError fun fault => fault.diagnose source.toList

end Token

end PipelineScript
