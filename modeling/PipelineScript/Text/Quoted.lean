import PipelineScript.Text.CharClass
import PipelineScript.Text.Unprintable

/-! Quoted text: the content between double quotes, with the characters that would not show spelled
as escapes. -/

namespace PipelineScript.Text

/-- Every character but a visible one, a letter's companion included, has to be spelled out. -/
def isPrintable (c : Char) : Bool :=
  if c.toNat < 128 then ' ' ≤ c && c ≤ '~'
  else !inRanges c.toNat unprintableRanges && !inRanges c.toNat extendingRanges

/-- Lower-case hexadecimal digits, without leading zeros. -/
def hexText (n : Nat) : String := String.ofList (Nat.toDigits 16 n)

/-- The spelling of one character; `marks` are the quotation marks that need a backslash. -/
def escaped (marks : List Char) (c : Char) : String :=
  match c with
  | '\x00' => "\\0"
  | '\t' => "\\t"
  | '\r' => "\\r"
  | '\n' => "\\n"
  | '\\' => "\\\\"
  | c =>
    if marks.contains c then "\\".push c
    else if isPrintable c then c.toString
    else "\\u\x7b" ++ hexText c.toNat ++ "\x7d"

def quoteWith (marks : List Char) (s : String) : String :=
  "\"" ++ String.join (s.toList.map (escaped marks)) ++ "\""

/-- Text in double quotes. -/
def quote (s : String) : String := quoteWith ['"'] s

/-- A file's path in double quotes: here the single quote gets a backslash as well. -/
def quotePath (path : String) : String := quoteWith ['"', '\''] path

end PipelineScript.Text
