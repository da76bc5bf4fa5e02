import PipelineScript.Token.Fault

/-! # Balance

Brackets must nest and strings must end before a text is worth scanning. One walk over the
characters keeps the open brackets on a stack and knows only whether it stands in code, in a string
or in a comment; brackets and quotes inside strings and comments do not count. -/

namespace PipelineScript.Balance

/-- What the walk stands in. -/
inductive Mode where
  | code
  /-- In code, after a slash that a second character may turn into a comment. -/
  | slash
  | string (openedOn : Nat)
  /-- In a string, after a backslash. -/
  | escape (openedOn : Nat)
  | lineComment
  /-- `starred` when the last character of the comment was a star. -/
  | blockComment (starred : Bool)
deriving DecidableEq, Repr

structure State where
  mode : Mode
  /-- The open brackets and the lines they stand on, the innermost first. -/
  stack : List (Bracket × Nat)
  line : Nat
deriving DecidableEq, Repr

def start : State := ⟨.code, [], 1⟩

/-- A closing bracket has to be the one that the innermost open bracket waits for. -/
def close (b : Bracket) (line : Nat) :
    List (Bracket × Nat) → Except LexicalFault (List (Bracket × Nat))
  | [] => .error ⟨line, .unmatched b⟩
  | (top, openedOn) :: rest =>
    if top = b then .ok rest else .error ⟨line, .mismatched b top openedOn⟩

def State.pass (s : State) (mode : Mode) (c : Char) : State :=
  { s with mode, line := if c = '\n' then s.line + 1 else s.line }

/-- One character of code. -/
def codeStep (s : State) (c : Char) : Except LexicalFault State :=
  if c = '"' then .ok (s.pass (.string s.line) c)
  else if c = '/' then .ok (s.pass .slash c)
  else
    match Bracket.opened? c, Bracket.closed? c with
    | some b, _ => .ok { s with mode := .code, stack := (b, s.line) :: s.stack }
    | none, some b => (close b s.line s.stack).map fun stack => { s with mode := .code, stack }
    | none, none => .ok (s.pass .code c)

def step (s : State) (c : Char) : Except LexicalFault State :=
  match s.mode with
  | .code => codeStep s c
  | .slash =>
    if c = '/' then .ok (s.pass .lineComment c)
    else if c = '*' then .ok (s.pass (.blockComment false) c)
    else codeStep s c
  | .string openedOn =>
    .ok (s.pass (if c = '"' then .code else if c = '\\' then .escape openedOn else s.mode) c)
  | .escape openedOn => .ok (s.pass (.string openedOn) c)
  | .lineComment => .ok (s.pass (if c = '\n' then .code else .lineComment) c)
  | .blockComment starred =>
    .ok (s.pass (if starred && c == '/' then .code else .blockComment (c == '*')) c)

/-- At the end of the text an open string is the first complaint, then the innermost bracket. -/
def finish (s : State) : Except LexicalFault Unit :=
  match s.mode, s.stack with
  | .string openedOn, _ | .escape openedOn, _ => .error ⟨openedOn, .oddQuotes⟩
  | _, (b, openedOn) :: _ => .error ⟨openedOn, .unclosed b⟩
  | _, [] => .ok ()

/-- Do brackets nest and strings end? -/
def check (source : List Char) : Except LexicalFault Unit := do
  finish (← source.foldlM step start)

end PipelineScript.Balance
