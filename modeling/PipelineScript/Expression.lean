import PipelineScript.Token
import PipelineScript.Token.Fault
import PipelineScript.Value

/-! # Expressions

The tree of an expression and its operators. From loose to tight: the choice, six levels of binary
operators, the unary operators, and access to fields and items. -/

namespace PipelineScript

inductive UnaryOp where
  | negate
  | not
deriving DecidableEq, Repr

inductive BinaryOp where
  | or | and | equal | notEqual | less | atMost | greater | atLeast
  | add | subtract | multiply | divide | remainder
deriving DecidableEq, Repr

namespace BinaryOp

/-- A higher level binds tighter. All operators associate to the left. -/
def level : BinaryOp → Nat
  | or => 1
  | and => 2
  | equal | notEqual => 3
  | less | atMost | greater | atLeast => 4
  | add | subtract => 5
  | multiply | divide | remainder => 6

def mark : BinaryOp → Punct
  | or => .or | and => .and | equal => .equal | notEqual => .notEqual | less => .less
  | atMost => .atMost | greater => .greater | atLeast => .atLeast | add => .plus
  | subtract => .minus | multiply => .star | divide => .slash | remainder => .percent

def text (op : BinaryOp) : String := op.mark.text

def ofMark? : Punct → Option BinaryOp
  | .or => some or | .and => some and | .equal => some equal | .notEqual => some notEqual
  | .less => some less | .atMost => some atMost | .greater => some greater
  | .atLeast => some atLeast | .plus => some add | .minus => some subtract
  | .star => some multiply | .slash => some divide | .percent => some remainder
  | _ => none

theorem ofMark?_eq_some_iff {p : Punct} {op : BinaryOp} : ofMark? p = some op ↔ op.mark = p := by
  cases p <;> cases op <;> decide

end BinaryOp

inductive Expression where
  | literal (v : Value)
  | variable_ (name : String)
  | list (items : List Expression)
  | unary (op : UnaryOp) (operand : Expression)
  | binary (op : BinaryOp) (left right : Expression)
  | choice (condition yes no : Expression)
  | field (target : Expression) (name : String)
  | item (target index : Expression)
  | call (name : String) (args : List Expression)
deriving Inhabited

/-- Why a text is no expression. -/
inductive ExpressionFault where
  | lexical (cause : LexicalCause)
  /-- A token that no expression goes on with. -/
  | unexpected (shown : String)
  | unexpectedEnd
  | keyword (word : Keyword)
  | noFieldName
  /-- A mark is left out; something else, or nothing, stands in its place. -/
  | expected (mark : Punct) (found : Option String)
  | badNumber (digits : String)
deriving DecidableEq, Repr

/-- The message names the whole expression, which has no place in the script of its own. -/
def ExpressionFault.message (source : String) : ExpressionFault → String
  | lexical cause => s!"{cause.message} in '{source}'"
  | unexpected shown => s!"unexpected '{shown}' in expression '{source}'"
  | unexpectedEnd => s!"unexpected end of expression '{source}'"
  | keyword word => s!"keyword '{word.text}' cannot appear in an expression"
  | noFieldName => s!"expected a field name after '.' in '{source}'"
  | expected mark found =>
    s!"expected '{mark.text}' but found '" ++ found.getD "end of expression" ++ s!"' in '{source}'"
  | badNumber digits => s!"invalid number '{digits}'"

end PipelineScript
