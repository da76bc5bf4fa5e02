import PipelineScript.Text.CharClass

/-! Parts of a text: trimmed ends, lines by number, stretches between byte offsets, and padding.
Offsets count the bytes of the UTF-8 form, which are the bytes of the file. -/

namespace PipelineScript.Text

def trimStart (cs : List Char) : List Char := cs.dropWhile isBlank

def trimEnd (cs : List Char) : List Char := (cs.reverse.dropWhile isBlank).reverse

def trim (cs : List Char) : List Char := trimEnd (trimStart cs)

def trimText (s : String) : String := String.ofList (trim s.toList)

/-- What is left after the first `n` lines. -/
def dropLines : Nat → List Char → List Char
  | 0, cs => cs
  | n + 1, cs => dropLines n ((cs.dropWhile (· != '\n')).drop 1)

/-- The trimmed text of line `n`, counted from 1; empty past the last line. -/
def lineText (n : Nat) (cs : List Char) : String :=
  String.ofList (trim ((dropLines (n - 1) cs).takeWhile (· != '\n')))

/-- The lines of a text, without their line feeds; the last one is what follows the last of them. -/
def linesOf : List Char → List (List Char)
  | [] => [[]]
  | c :: cs =>
    if c = '\n' then [] :: linesOf cs
    else match linesOf cs with
      | line :: rest => (c :: line) :: rest
      | [] => [[c]]

/-- Bytes of the UTF-8 form. -/
def utf8Length : List Char → Nat
  | [] => 0
  | c :: cs => c.utf8Size + utf8Length cs

def newlines : List Char → Nat
  | [] => 0
  | c :: cs => (if c = '\n' then 1 else 0) + newlines cs

def dropBytes : Nat → List Char → List Char
  | _, [] => []
  | n, c :: cs => if n = 0 then c :: cs else dropBytes (n - c.utf8Size) cs

def takeBytes : Nat → List Char → List Char
  | _, [] => []
  | n, c :: cs => if n = 0 then [] else c :: takeBytes (n - c.utf8Size) cs

/-- The characters between two byte offsets. -/
def slice (start stop : Nat) (cs : List Char) : List Char :=
  takeBytes (stop - start) (dropBytes start cs)

def padRight (width : Nat) (s : String) : String :=
  s ++ String.ofList (List.replicate (width - s.length) ' ')

def padLeft (width : Nat) (s : String) : String :=
  String.ofList (List.replicate (width - s.length) ' ') ++ s

@[simp] theorem utf8Length_append (as bs : List Char) :
    utf8Length (as ++ bs) = utf8Length as + utf8Length bs := by
  induction as with
  | nil => simp [utf8Length]
  | cons c as ih => simp [utf8Length, ih, Nat.add_assoc]

@[simp] theorem newlines_append (as bs : List Char) :
    newlines (as ++ bs) = newlines as + newlines bs := by
  induction as with
  | nil => simp [newlines]
  | cons c as ih => simp [newlines, ih, Nat.add_assoc]

theorem dropBytes_utf8Length (as bs : List Char) : dropBytes (utf8Length as) (as ++ bs) = bs := by
  induction as with
  | nil => cases bs <;> simp [utf8Length, dropBytes]
  | cons c as ih =>
    simp [utf8Length, dropBytes, ih, Nat.ne_of_gt (Char.utf8Size_pos c)]

theorem takeBytes_utf8Length (as bs : List Char) : takeBytes (utf8Length as) (as ++ bs) = as := by
  induction as with
  | nil => cases bs <;> simp [utf8Length, takeBytes]
  | cons c as ih =>
    simp [utf8Length, takeBytes, ih, Nat.ne_of_gt (Char.utf8Size_pos c)]

/-- A stretch is found again between the offsets of its ends. -/
theorem slice_middle (as bs cs : List Char) :
    slice (utf8Length as) (utf8Length as + utf8Length bs) (as ++ bs ++ cs) = bs := by
  simp [slice, dropBytes_utf8Length, takeBytes_utf8Length]

end PipelineScript.Text
