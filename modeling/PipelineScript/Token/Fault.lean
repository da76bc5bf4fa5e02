import PipelineScript.Diagnostic
import PipelineScript.Text.Slice

/-! Why a text has no tokens. -/

namespace PipelineScript

/-- A kind of bracket. -/
inductive Bracket where
  | round | square | curly
deriving DecidableEq, Repr

namespace Bracket

def opening : Bracket → Char
  | round => '(' | square => '[' | curly => '{'

def closing : Bracket → Char
  | round => ')' | square => ']' | curly => '}'

def opened? (c : Char) : Option Bracket := [round, square, curly].find? fun b => b.opening = c

def closed? (c : Char) : Option Bracket := [round, square, curly].find? fun b => b.closing = c

end Bracket

inductive LexicalCause where
  /-- `close` comes while `open_`, opened on `openLine`, still waits for its own end. -/
  | mismatched (close open_ : Bracket) (openLine : Nat)
  | unmatched (close : Bracket)
  | unclosed (open_ : Bracket)
  | oddQuotes
  | unterminatedString
  | unterminatedComment
  | unicodeEscape (digits : String)
  | unknownEscape (escape : Option Char)
  | hexLiteral (text : String)
  | integerSuffix (text : String)
  | integerRange (text : String)
  | trailingLetters (text : String)
  | unexpected (c : Char)
deriving DecidableEq, Repr

namespace LexicalCause

def category : LexicalCause → Category
  | mismatched .. | unmatched _ | unclosed _ => .bracket
  | oddQuotes | unterminatedString | unicodeEscape _ | unknownEscape _ => .string
  | _ => .token

def message : LexicalCause → String
  | mismatched close open_ openLine =>
    s!"mismatched '{close.closing}': '{open_.opening}' opened on line {openLine} is still open"
  | unmatched close =>
    s!"unexpected '{close.closing}' with no matching '{close.opening}'"
  | unclosed open_ => s!"unclosed '{open_.opening}'"
  | oddQuotes => "unterminated string literal (odd number of '\"')"
  | unterminatedString => "unterminated string literal"
  | unterminatedComment => "unterminated block comment"
  | unicodeEscape digits => s!"invalid unicode escape '\\u{digits}'"
  | unknownEscape escape =>
    "unknown escape sequence '\\" ++ (escape.map Char.toString).getD "" ++ "'"
  | hexLiteral text => s!"invalid hex literal '{text}'"
  | integerSuffix text => s!"integer suffix on decimal literal '{text}'"
  | integerRange text => s!"integer literal '{text}' is out of range"
  | trailingLetters text => s!"invalid numeric literal '{text}'"
  | unexpected c => s!"unexpected character '{c}'"

def suggestion : LexicalCause → String
  | mismatched close open_ _ =>
    s!"close '{open_.opening}' with '{open_.closing}' before '{close.closing}'"
  | unmatched close => s!"remove the '{close.closing}' or add the missing '{close.opening}'"
  | unclosed open_ => s!"add the matching '{open_.closing}'"
  | oddQuotes | unterminatedString => "close the string with '\"'"
  | unterminatedComment => "close the comment with '*/'"
  | unicodeEscape _ => "unicode escapes take exactly four hex digits: \\u00e9"
  | unknownEscape _ => "supported escapes: \\n \\t \\r \\0 \\\" \\' \\\\ \\uXXXX"
  | hexLiteral _ => "hex literals need at least one digit and must fit in 64 bits"
  | integerSuffix _ => "drop the 'L' suffix or write an integer"
  | integerRange _ => "integers must fit in 64 bits; use a decimal literal for larger values"
  | trailingLetters _ => "identifiers cannot start with a digit"
  | unexpected _ => "remove the character or quote it inside a string"

end LexicalCause

structure LexicalFault where
  line : Nat
  cause : LexicalCause
deriving DecidableEq, Repr

/-- The fault with the line of the source it lies on. -/
def LexicalFault.diagnose (f : LexicalFault) (source : List Char) : Diagnostic :=
  ⟨f.line, f.cause.category, f.cause.message, Text.lineText f.line source, f.cause.suggestion⟩

end PipelineScript
