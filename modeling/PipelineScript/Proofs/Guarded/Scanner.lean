import Mathlib
import PipelineScript.Numeral.Reading
import PipelineScript.Proofs.Guarded.Trap
import PipelineScript.Token.Lexer

/-! # Scanning by bytes

A scanner keeps the byte where it stands and looks at the text from there on. Everything that it
takes it cuts out of the text again, from the byte where it began. Lines are counted on the way. -/

namespace PipelineScript

open Guarded

structure Scanner where
  /-- The byte of the next character. -/
  pos : Nat
  line : Nat
  tokens : List Token

abbrev Scanning (α : Type) := Guarded Scanner LexicalFault α

namespace Scanning

variable (text : List Char)

/-! ## Characters -/

def ahead : Scanning (List Char) := do
  demand .slice (Text.onward? (← get).pos text)

def peek : Scanning (Option Char) := return (← ahead text).head?

def peekNth (n : Nat) : Scanning (Option Char) := return (← ahead text)[n]?

def bump : Scanning (Option Char) := do
  match ← peek text with
  | some c =>
    modify fun s => { s with pos := s.pos + c.utf8Size }
    return some c
  | none => return none

/-- The text from a byte up to another. -/
def stretch (start stop : Nat) : Scanning (List Char) :=
  demand .slice (Text.between? start stop text)

/-- The text from a byte up to the next character. -/
def since (start : Nat) : Scanning (List Char) := do
  stretch text start (← get).pos

/-- A token that ends before the next character. -/
def push (lexeme : Lexeme) (line start : Nat) : Scanning Unit :=
  modify fun s => { s with tokens := s.tokens ++ [⟨lexeme, line, start, s.pos⟩] }

def countLine : Scanning Unit := modify fun s => { s with line := s.line + 1 }

def countLineOf (c : Char) : Scanning Unit := if c = '\n' then countLine else pure ()

def failOn {α : Type} (line : Nat) (cause : LexicalCause) : Scanning α := fault ⟨line, cause⟩

def fail {α : Type} (cause : LexicalCause) : Scanning α := do
  failOn (← get).line cause

def passWhile (p : Char → Bool) : Nat → Scanning Unit
  | 0 => trap .endless
  | turns + 1 => do
    match ← peek text with
    | some c =>
      if p c then
        let _ ← bump text
        passWhile p turns
      else return ()
    | none => return ()

def passIf (p : Char → Bool) : Scanning Unit := do
  if (← peek text).any p then
    let _ ← bump text

/-- Every turn of a loop moves on by a character. -/
def turns : Nat := text.length + 1

/-! ## Comments -/

/-- The rest of a block comment. Does it end? -/
def passBlockComment : Nat → Scanning Bool
  | 0 => trap .endless
  | turns + 1 => do
    match ← bump text with
    | none => return false
    | some c =>
      countLineOf c
      if c = '*' ∧ (← peek text) = some '/' then
        let _ ← bump text
        return true
      else passBlockComment turns

def scanComment : Scanning Unit := do
  let start := (← get).pos
  let startLine := (← get).line
  let _ ← bump text
  if (← bump text) = some '/' then passWhile text (· != '\n') (turns text)
  else
    unless ← passBlockComment text (turns text) do failOn startLine .unterminatedComment
  let comment ← since text start
  push (.comment (String.ofList comment)) startLine start

/-! ## Words -/

/-- The dollar sign of a system name was passed before. -/
def wordStart (system : Bool) : Scanning Nat := do
  let here := (← get).pos
  if system then minus here 1 else return here

def scanWord (system : Bool) : Scanning Unit := do
  let start ← wordStart system
  passWhile text Literal.isWordPart (turns text)
  let word := String.ofList (← since text start)
  push (if system then .systemIdent word else Lexeme.word word) (← get).line start

/-! ## Numbers -/

/-- Digits, written down behind others. Separators are passed over. -/
def takeDigits (digit : Char → Bool) : Nat → List Char → Scanning (List Char)
  | 0, _ => trap .endless
  | turns + 1, digits => do
    match ← peek text with
    | some c =>
      if digit c then
        let _ ← bump text
        takeDigits digit turns (digits ++ [c])
      else if c = '_' then
        let _ ← bump text
        takeDigits digit turns digits
      else return digits
    | none => return digits

def rejectLetters (start : Nat) : Scanning Unit := do
  if (← peek text).any Literal.isWordPart then
    let letters := (← ahead text).takeWhile Literal.isWordPart
    let written ← stretch text start ((← get).pos + Text.utf8Length letters)
    fail (.trailingLetters (String.ofList written))

def isLongSuffix (c : Char) : Bool := c == 'L' || c == 'l'

def isFloatSuffix (c : Char) : Bool := c == 'D' || c == 'd' || c == 'F' || c == 'f'

def isExponentMark (c : Char) : Bool := c == 'e' || c == 'E'

def isSign (c : Char) : Bool := c == '+' || c == '-'

def scanHex (start : Nat) : Scanning Unit := do
  let _ ← bump text
  let _ ← bump text
  let digits ← takeDigits text Text.isHexDigit (turns text) []
  passIf text isLongSuffix
  rejectLetters text start
  let value? := if digits = [] then none else Numeral.toInt64? (Numeral.valueOf 16 digits)
  match value? with
  | some value => push (.int value) (← get).line start
  | none => fail (.hexLiteral (String.ofList (← since text start)))

/-- A point and the digits after it, if a digit follows the point. -/
def takePoint (digits : List Char) : Scanning (List Char × Bool) := do
  if (← peek text) = some '.' ∧ (← peekNth text 1).any Text.isAsciiDigit then
    let _ ← bump text
    return (← takeDigits text Text.isAsciiDigit (turns text) (digits ++ ['.']), true)
  else return (digits, false)

def takeSign (signed : Bool) : Scanning (List Char) := do
  if signed then return (← bump text).toList else return []

/-- An exponent, if it has a digit. -/
def takePower (digits : List Char) : Scanning (List Char × Bool) := do
  if (← peek text).any isExponentMark then
    let signed := (← peekNth text 1).any isSign
    if (← peekNth text (if signed then 2 else 1)).any Text.isAsciiDigit then
      let _ ← bump text
      let sign ← takeSign text signed
      return (← takeDigits text Text.isAsciiDigit (turns text) (digits ++ 'e' :: sign), true)
    else return (digits, false)
  else return (digits, false)

/-- A letter for the kind of number. Is it one with a fraction? -/
def takeSuffix (start : Nat) (isFloat : Bool) : Scanning Bool := do
  if (← peek text).any isLongSuffix then
    if isFloat then
      let written ← stretch text start ((← get).pos + 1)
      fail (.integerSuffix (String.ofList written))
    else
      let _ ← bump text
      return false
  else if (← peek text).any isFloatSuffix then
    let _ ← bump text
    return true
  else return isFloat

/-- The number that was passed, as an integer or with a fraction. -/
def storeDecimal (start : Nat) (digits : List Char) (isFloat : Bool) : Scanning Unit := do
  rejectLetters text start
  if isFloat then
    let _ ← demand .literal (Numeral.readFloat? digits)
    push (.float (String.ofList digits)) (← get).line start
  else
    match Numeral.readInt64? digits with
    | some value => push (.int value) (← get).line start
    | none => fail (.integerRange (String.ofList (← since text start)))

def scanDecimal (start : Nat) : Scanning Unit := do
  let whole ← takeDigits text Text.isAsciiDigit (turns text) []
  let (mantissa, pointed) ← takePoint text whole
  let (digits, powered) ← takePower text mantissa
  let isFloat ← takeSuffix text start (pointed || powered)
  storeDecimal text start digits isFloat

def scanNumber : Scanning Unit := do
  let start := (← get).pos
  if (← peek text) = some '0' ∧ (← peekNth text 1).any (fun c => c == 'x' || c == 'X') then
    scanHex text start
  else scanDecimal text start

/-! ## Strings -/

def withoutPlus : List Char → List Char
  | '+' :: digits => digits
  | digits => digits

/-- The character of some hexadecimal digits, which may have a plus sign before them. -/
def charOf? (hex : List Char) : Option Char := do
  guard (withoutPlus hex ≠ [])
  let places ← (withoutPlus hex).mapM Text.hexValue?
  let n := places.foldl (fun n v => 16 * n + v) 0
  if n.isValidChar then some (Char.ofNat n) else none

/-- Four bytes as the places of an escape. -/
def decode? (hex : List Char) : Option Char := if Text.utf8Length hex = 4 then charOf? hex else none

/-- The places of an escape that names a character by its number. -/
def scanPlaces : Scanning Char := do
  let hex := (← ahead text).take 4
  match decode? hex with
  | some decoded =>
    modify fun s => { s with pos := s.pos + Text.utf8Length hex }
    return decoded
  | none => fail (.unicodeEscape (String.ofList hex))

/-- What the characters behind a backslash stand for. -/
def scanEscape : Scanning Char := do
  match ← bump text with
  | some e =>
    if e = 'u' then scanPlaces text
    else
      match Literal.simpleEscape? e with
      | some decoded => return decoded
      | none => fail (.unknownEscape (some e))
  | none => fail (.unknownEscape none)

/-- The rest of a string through its closing quote, written down behind its beginning. -/
def scanContents (startLine : Nat) : Nat → List Char → Scanning (List Char)
  | 0, _ => trap .endless
  | turns + 1, contents => do
    match ← bump text with
    | none => failOn startLine .unterminatedString
    | some c =>
      if c = '"' then return contents
      else if c = '\n' then
        countLine
        scanContents startLine turns (contents ++ ['\n'])
      else if c = '\\' then
        let decoded ← scanEscape text
        scanContents startLine turns (contents ++ [decoded])
      else scanContents startLine turns (contents ++ [c])

def scanString : Scanning Unit := do
  let start := (← get).pos
  let startLine := (← get).line
  let _ ← bump text
  let contents ← scanContents text startLine (turns text) []
  push (.str (String.ofList contents)) startLine start

/-! ## Tokens -/

def scanOperator : Scanning Unit := do
  let start := (← get).pos
  let rest ← ahead text
  match Punct.read? rest with
  | some p =>
    modify fun s => { s with pos := s.pos + Text.utf8Length p.chars }
    push (.punct p) (← get).line start
  | none => fail (.unexpected ((← peek text).getD '?'))

/-- A blank or a token that begins with `c`. -/
def scanOne (c : Char) : Scanning Unit := do
  let start := (← get).pos
  if c = '\n' then
    let _ ← bump text
    push (.lineEnd false) (← get).line start
    countLine
  else if c = ';' then
    let _ ← bump text
    push (.lineEnd true) (← get).line start
  else if Text.isBlank c then
    let _ ← bump text
  else if c = '/' ∧ (← peekNth text 1).any (fun d => d == '/' || d == '*') then scanComment text
  else if Lexeme.isWordStart c then scanWord text false
  else if c = '$' ∧ (← peekNth text 1).any Lexeme.isWordStart then
    let _ ← bump text
    scanWord text true
  else if Text.isAsciiDigit c then scanNumber text
  else if c = '"' then scanString text
  else scanOperator text

def scanAll : Nat → Scanning Unit
  | 0 => trap .endless
  | turns + 1 => do
    match ← peek text with
    | some c =>
      scanOne text c
      scanAll turns
    | none => return ()

/-- The tokens of a text. -/
def tokenize (text : List Char) : Except (Trap ⊕ LexicalFault) (List Token) := do
  sure (Balance.check text)
  let (_, scanner) ← scanAll text (turns text) ⟨0, 1, []⟩
  return scanner.tokens

end Scanning

end PipelineScript
