import PipelineScript.Text.CharClass
import PipelineScript.Text.LetterCaseTable

/-! Upper and lower case of whole texts. A letter may become several, and the capital sigma becomes
the final small sigma where it ends a word. -/

namespace PipelineScript.Text

/-- The code point that a table of runs gives for `n`. -/
def shifted? (n : Nat) : List (Nat × Nat × Nat × Int) → Option Nat
  | [] => none
  | (first, last, step, shift) :: rest =>
    if n < first then none
    else if n ≤ last && (n - first) % step == 0 then some (n + shift).toNat
    else shifted? n rest

def mapCase (runs : List (Nat × Nat × Nat × Int)) (expansions : List (Nat × List Nat))
    (c : Char) : List Char :=
  match expansions.lookup c.toNat with
  | some ns => ns.map Char.ofNat
  | none => [((shifted? c.toNat runs).map Char.ofNat).getD c]

def upper (c : Char) : List Char := mapCase upperRuns upperExpansions c

def lower (c : Char) : List Char := mapCase lowerRuns lowerExpansions c

/-- After the characters that case ignores, does a cased one come next? -/
def casedNext (cs : List Char) : Bool :=
  match cs.dropWhile fun c => inRanges c.toNat caseIgnorableRanges with
  | c :: _ => inRanges c.toNat casedRanges
  | [] => false

/-- Lower case of the text that follows `before`, which is given in reverse. -/
def lowerAfter (before : List Char) : List Char → List Char
  | [] => []
  | c :: rest =>
    let here := if c = 'Σ' then (if casedNext before && !casedNext rest then ['ς'] else ['σ'])
      else lower c
    here ++ lowerAfter (c :: before) rest

def toUpperCase (s : String) : String := String.ofList (s.toList.flatMap upper)

def toLowerCase (s : String) : String := String.ofList (lowerAfter [] s.toList)

end PipelineScript.Text
