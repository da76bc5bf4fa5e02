import PipelineScript.Numeral.Integer
import PipelineScript.Token
import PipelineScript.Token.Fault

/-! # Literals

Number and string literals, read from the front of a text. Each reader answers with the literal and
the number of characters it takes beyond the first. -/

namespace PipelineScript

/-- A lexeme and the number of characters it takes after its first one. -/
structure Lexeme.Taken where
  lexeme : Lexeme
  more : Nat
deriving DecidableEq, Repr

namespace Literal

open Text

/-! ## Numbers -/

/-- Underscores may stand among digits. -/
def isDigitPart (c : Char) : Bool := isAsciiDigit c || c == '_'

def isHexPart (c : Char) : Bool := isHexDigit c || c == '_'

def isWordPart (c : Char) : Bool := isAlphanumeric c || c == '_'

def withoutSeparators (cs : List Char) : List Char := cs.filter (· != '_')

/-- A point and the digits after it. A point that no digit follows belongs to something else. -/
def fraction : List Char → List Char
  | '.' :: d :: rest => if isAsciiDigit d then '.' :: (d :: rest).takeWhile isDigitPart else []
  | _ => []

/-- An exponent mark, its sign and digits. Without a digit the letter is no exponent. -/
def exponent : List Char → List Char
  | e :: rest =>
    if e = 'e' ∨ e = 'E' then
      match rest with
      | s :: d :: rest' =>
        if (s = '+' ∨ s = '-') ∧ isAsciiDigit d then e :: s :: (d :: rest').takeWhile isDigitPart
        else if isAsciiDigit s then e :: (s :: d :: rest').takeWhile isDigitPart
        else []
      | [d] => if isAsciiDigit d then [e, d] else []
      | [] => []
    else []
  | [] => []

/-- The exponent with a small mark and no separators. -/
def normalExponent : List Char → List Char
  | _ :: digits => 'e' :: withoutSeparators digits
  | [] => []

/-- The letters that may not follow a number directly. -/
def trailing (cs : List Char) : List Char := cs.takeWhile isWordPart

/-- `written` is the literal so far and `rest` what follows: no letter may. -/
def ended (written rest : List Char) (literal : Except LexicalCause Lexeme) :
    Except LexicalCause Lexeme.Taken :=
  if trailing rest ≠ [] then .error (.trailingLetters (String.ofList (written ++ trailing rest)))
  else literal.map fun lexeme => ⟨lexeme, written.length - 1⟩

def integer (value : Nat) (cause : LexicalCause) : Except LexicalCause Lexeme :=
  match Numeral.toInt64? value with
  | some w => .ok (.int w)
  | none => .error cause

/-- The digits after `0x`, underscores and a length suffix allowed. -/
def readHex (mark : List Char) (cs : List Char) : Except LexicalCause Lexeme.Taken :=
  let run := cs.takeWhile isHexPart
  let suffix := ((cs.dropWhile isHexPart).take 1).filter fun c => c == 'L' || c == 'l'
  let written := mark ++ run ++ suffix
  let digits := withoutSeparators run
  let cause := LexicalCause.hexLiteral (String.ofList written)
  ended written ((cs.dropWhile isHexPart).drop suffix.length)
    (if digits = [] then .error cause else integer (Numeral.valueOf 16 digits) cause)

/-- Digits, a fraction and an exponent, as far as a text begins with them. -/
structure Mantissa where
  whole : List Char
  point : List Char
  power : List Char

namespace Mantissa

def ofChars (cs : List Char) : Mantissa :=
  let whole := cs.takeWhile isDigitPart
  let point := fraction (cs.drop whole.length)
  ⟨whole, point, exponent (cs.drop (whole.length + point.length))⟩

/-- The stretch of the text. -/
def written (m : Mantissa) : List Char := m.whole ++ m.point ++ m.power

def digits (m : Mantissa) : List Char :=
  withoutSeparators m.whole ++ withoutSeparators m.point ++ normalExponent m.power

/-- Without a fraction and an exponent it may be an integer. -/
def isPlain (m : Mantissa) : Bool := m.point = [] ∧ m.power = []

def float (m : Mantissa) : Lexeme := .float (String.ofList m.digits)

/-- The integer, which stands in the text with its suffix. -/
def int (m : Mantissa) (written : List Char) : Except LexicalCause Lexeme :=
  integer (Numeral.valueOf 10 m.digits) (.integerRange (String.ofList written))

/-- The number that `rest` follows. It may begin with a suffix that names the kind of number. -/
def finish (m : Mantissa) (rest : List Char) : Except LexicalCause Lexeme.Taken :=
  match rest with
  | s :: after =>
    if s = 'L' ∨ s = 'l' then
      if m.isPlain then ended (m.written ++ [s]) after (m.int (m.written ++ [s]))
      else .error (.integerSuffix (String.ofList (m.written ++ [s])))
    else if s = 'D' ∨ s = 'd' ∨ s = 'F' ∨ s = 'f' then
      ended (m.written ++ [s]) after (.ok m.float)
    else ended m.written rest (if m.isPlain then m.int m.written else .ok m.float)
  | [] => ended m.written [] (if m.isPlain then m.int m.written else .ok m.float)

end Mantissa

/-- Digits, a fraction, an exponent and a suffix. -/
def readDecimal (cs : List Char) : Except LexicalCause Lexeme.Taken :=
  let m := Mantissa.ofChars cs
  m.finish (cs.drop m.written.length)

/-- A number literal whose first character is the digit `c`. -/
def readNumber (c : Char) (rest : List Char) : Except LexicalCause Lexeme.Taken :=
  match rest with
  | x :: body =>
    if c = '0' ∧ (x = 'x' ∨ x = 'X') then readHex [c, x] body else readDecimal (c :: rest)
  | [] => readDecimal [c]

/-! ## Strings -/

def simpleEscape? : Char → Option Char
  | 'n' => some '\n' | 't' => some '\t' | 'r' => some '\r' | '0' => some '\x00'
  | '"' => some '"' | '\'' => some '\'' | '\\' => some '\\'
  | _ => none

/-- The character of a four-place escape. The first place may hold a plus sign, which adds
nothing; half of a surrogate pair is no character. -/
def fourPlaces? (a b c d : Char) : Option Char := do
  let places ← (if a = '+' then [b, c, d] else [a, b, c, d]).mapM hexValue?
  let n := places.foldl (fun n v => 16 * n + v) 0
  if n.isValidChar then some (Char.ofNat n) else none

/-- The rest of a string after its opening quote: the decoded contents and the number of characters
up to and with the closing quote. A fault comes with the line feeds passed before it. -/
def readString (passed : Nat) : List Char → Except (Nat × LexicalCause) (List Char × Nat)
  | [] => .error (0, .unterminatedString)
  | '"' :: _ => .ok ([], 1)
  | '\\' :: 'u' :: a :: b :: c :: d :: rest =>
    match fourPlaces? a b c d with
    | some decoded => (readString passed rest).map fun (cs, n) => (decoded :: cs, n + 6)
    | none => .error (passed, .unicodeEscape (String.ofList [a, b, c, d]))
  | '\\' :: 'u' :: rest => .error (passed, .unicodeEscape (String.ofList rest))
  | '\\' :: e :: rest =>
    match simpleEscape? e with
    | some decoded => (readString passed rest).map fun (cs, n) => (decoded :: cs, n + 2)
    | none => .error (passed, .unknownEscape (some e))
  | ['\\'] => .error (passed, .unknownEscape none)
  | c :: rest =>
    (readString (if c = '\n' then passed + 1 else passed) rest).map fun (cs, n) => (c :: cs, n + 1)

end Literal

end PipelineScript
