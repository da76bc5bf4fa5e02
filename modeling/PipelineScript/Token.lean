import PipelineScript.Text.Quoted

/-! # Tokens

What the text of a script is made of: words, literals, punctuation, statement ends and comments,
each with the line it starts on and the bytes it covers. -/

namespace PipelineScript

/-- The reserved words, in lower and upper case as written here. -/
inductive Keyword where
  | import_ | as_ | declare | run | task | export_ | echo | if_ | else_ | switch | case_
  | default_ | for_ | in_ | while_ | break_ | breakAll | continue_ | function | return_
  | true_ | false_ | null
deriving DecidableEq, Repr

namespace Keyword

def text : Keyword → String
  | import_ => "import" | as_ => "as" | declare => "declare" | run => "run" | task => "task"
  | export_ => "export" | echo => "echo" | if_ => "if" | else_ => "else" | switch => "switch"
  | case_ => "case" | default_ => "default" | for_ => "for" | in_ => "in" | while_ => "while"
  | break_ => "break" | breakAll => "breakAll" | continue_ => "continue"
  | function => "function" | return_ => "return" | true_ => "true" | false_ => "false"
  | null => "null"

def all : List Keyword :=
  [import_, as_, declare, run, task, export_, echo, if_, else_, switch, case_, default_, for_,
    in_, while_, break_, breakAll, continue_, function, return_, true_, false_, null]

def ofText? (s : String) : Option Keyword := all.find? fun k => k.text = s

theorem mem_all (k : Keyword) : k ∈ all := by cases k <;> decide

theorem ofText?_text (k : Keyword) : ofText? k.text = some k := by cases k <;> decide

theorem text_of_ofText? {s : String} {k : Keyword} (h : ofText? s = some k) : k.text = s := by
  simpa using List.find?_some h

end Keyword

/-- Operators and punctuation. -/
inductive Punct where
  | rangeBelow | rangeThrough | equal | notEqual | atMost | atLeast | and | or | arrow
  | plus | minus | star | slash | percent | less | greater | assign | bang | question
  | openParen | closeParen | openBrace | closeBrace | openBracket | closeBracket
  | comma | colon | dot
deriving DecidableEq, Repr

namespace Punct

def chars : Punct → List Char
  | rangeBelow => ['.', '.', '<'] | rangeThrough => ['.', '.'] | equal => ['=', '=']
  | notEqual => ['!', '='] | atMost => ['<', '='] | atLeast => ['>', '='] | and => ['&', '&']
  | or => ['|', '|'] | arrow => ['-', '>'] | plus => ['+'] | minus => ['-'] | star => ['*']
  | slash => ['/'] | percent => ['%'] | less => ['<'] | greater => ['>'] | assign => ['=']
  | bang => ['!'] | question => ['?'] | openParen => ['('] | closeParen => [')']
  | openBrace => ['{'] | closeBrace => ['}'] | openBracket => ['['] | closeBracket => [']']
  | comma => [','] | colon => [':'] | dot => ['.']

def text (p : Punct) : String := String.ofList p.chars

/-- Longer operators come before their own beginnings. -/
def all : List Punct :=
  [rangeBelow, rangeThrough, equal, notEqual, atMost, atLeast, and, or, arrow, plus, minus, star,
    slash, percent, less, greater, assign, bang, question, openParen, closeParen, openBrace,
    closeBrace, openBracket, closeBracket, comma, colon, dot]

/-- The longest operator that the text begins with. -/
def read? (cs : List Char) : Option Punct := all.find? fun p => p.chars.isPrefixOf cs

theorem mem_all (p : Punct) : p ∈ all := by cases p <;> decide

theorem chars_of_read? {cs : List Char} {p : Punct} (h : read? cs = some p) :
    p.chars <+: cs := by
  simpa using List.find?_some h

end Punct

/-- One token without its place. Numbers carry their value, strings their decoded contents. -/
inductive Lexeme where
  | ident (name : String)
  /-- A name that starts with a dollar sign, which only the host binds. -/
  | systemIdent (name : String)
  | keyword (word : Keyword)
  | int (value : Int64)
  /-- Digits, perhaps a fraction and an exponent, without separators and suffix. -/
  | float (digits : String)
  | str (contents : String)
  | punct (mark : Punct)
  /-- A statement ends at a line feed or at a semicolon. -/
  | lineEnd (semicolon : Bool)
  | comment (text : String)
deriving DecidableEq, Repr

namespace Lexeme

def kindName : Lexeme → String
  | ident _ => "Ident" | systemIdent _ => "SystemIdent" | keyword _ => "Keyword"
  | int _ => "Int" | float _ => "Float" | str _ => "Str" | punct _ => "Punct"
  | lineEnd _ => "LineEnd" | comment _ => "Comment"

def text : Lexeme → String
  | ident name => name
  | systemIdent name => name
  | keyword word => word.text
  | int value => toString value.toInt
  | float digits => digits
  | str contents => contents
  | punct mark => mark.text
  | lineEnd semicolon => if semicolon then ";" else "\n"
  | comment text => text

/-- The lexeme as error messages and listings show it. -/
def shown : Lexeme → String
  | str contents => Text.quote contents
  | lineEnd _ => "⏎"
  | other => other.text

def isComment : Lexeme → Bool
  | comment _ => true
  | _ => false

def isLineEnd : Lexeme → Bool
  | lineEnd _ => true
  | _ => false

end Lexeme

/-- A lexeme in its place: the bytes `start` up to `stop` of the text, starting on `line`. -/
structure Token where
  lexeme : Lexeme
  /-- Counted from 1. -/
  line : Nat
  start : Nat
  stop : Nat
deriving DecidableEq, Repr

namespace Token

def shown (t : Token) : String := t.lexeme.shown

def isPunct (t : Token) (p : Punct) : Bool := t.lexeme = .punct p

def isKeyword (t : Token) (k : Keyword) : Bool := t.lexeme = .keyword k

def isLineEnd (t : Token) : Bool := t.lexeme.isLineEnd

end Token

end PipelineScript
