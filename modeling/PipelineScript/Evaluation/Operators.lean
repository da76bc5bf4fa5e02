import PipelineScript.Evaluation.Fault
import PipelineScript.Value.Text

/-! # Operators

Integer arithmetic is exact: it is done on whole numbers, and a result outside of 64 bits is a
fault. As soon as one side is a double, both are. -/

namespace PipelineScript

namespace Value

/-- Equality of scripts: an integer equals the double that it converts to. -/
def equal : Value → Value → Bool
  | int a, float b => a.toFloat == b
  | float a, int b => a == b.toFloat
  | a, b => a.same b

/-- The order of two doubles that are numbers. -/
def compareFloat? (a b : Float) : Option Ordering :=
  if a < b then some .lt else if a == b then some .eq else if b < a then some .gt else none

/-- The order of two values, where they have one. -/
def compare? : Value → Value → Option Ordering
  | int a, int b => some (Ord.compare a.toInt b.toInt)
  | str a, str b => some (Ord.compare a b)
  | date a, date b => some (a.compare b)
  | bool a, bool b => some (Ord.compare a b)
  | a, b =>
    match a.asFloat?, b.asFloat? with
    | some x, some y => compareFloat? x y
    | _, _ => none

/-- The integer result of an operation, unless 64 bits cannot hold it. -/
def ofExact (i : Int) : Except EvalFault Value :=
  match Numeral.toInt64? i with
  | some w => .ok (int w)
  | none => .error .overflow

end Value

namespace UnaryOp

def apply : UnaryOp → Value → Except EvalFault Value
  | not, v => .ok (.bool !v.isTruthy)
  | negate, .int i => Value.ofExact (-i.toInt)
  | negate, .float x => .ok (.float (-x))
  | negate, v => .error (.negation v.typeName)

end UnaryOp

namespace BinaryOp

/-- Division rounds toward zero. A remainder belongs to a quotient, which has to exist too. -/
def onInts (op : BinaryOp) (a b : Int) : Except EvalFault Value :=
  match op with
  | add => Value.ofExact (a + b)
  | subtract => Value.ofExact (a - b)
  | multiply => Value.ofExact (a * b)
  | divide => if b = 0 then .error .divisionByZero else Value.ofExact (a.tdiv b)
  | _ =>
    if b = 0 then .error .divisionByZero
    else if Numeral.fits (a.tdiv b) then Value.ofExact (a.tmod b)
    else .error .overflow

def onFloats (op : BinaryOp) (a b : Float) : Except EvalFault Value :=
  match op with
  | add => .ok (.float (a + b))
  | subtract => .ok (.float (a - b))
  | multiply => .ok (.float (a * b))
  | divide => if b == 0.0 then .error .divisionByZero else .ok (.float (a / b))
  | _ => if b == 0.0 then .error .divisionByZero else .ok (.float (Numeral.remainder a b))

def arithmetic (op : BinaryOp) : Value → Value → Except EvalFault Value
  | .int a, .int b => op.onInts a.toInt b.toInt
  | a, b =>
    match a.asFloat?, b.asFloat? with
    | some x, some y => op.onFloats x y
    | _, _ => .error (.operands a.typeName op b.typeName)

/-- A text takes the text of whatever is added to it; lists are joined. -/
def sum : Value → Value → Except EvalFault Value
  | .str a, b => .ok (.str (a ++ b.text))
  | a, .str b => .ok (.str (a.text ++ b))
  | .list a, .list b => .ok (.list (a ++ b))
  | a, b => arithmetic add a b

def holds (op : BinaryOp) (o : Ordering) : Bool :=
  match op with
  | less => o == .lt
  | atMost => o != .gt
  | greater => o == .gt
  | _ => o != .lt

def ordered (op : BinaryOp) (a b : Value) : Except EvalFault Value :=
  match a.compare? b with
  | some o => .ok (.bool (op.holds o))
  | none => .error (.comparison a.typeName op b.typeName)

/-- An operator on the values of both sides. -/
def apply (op : BinaryOp) (a b : Value) : Except EvalFault Value :=
  match op with
  | or => .ok (.bool (a.isTruthy || b.isTruthy))
  | and => .ok (.bool (a.isTruthy && b.isTruthy))
  | equal => .ok (.bool (a.equal b))
  | notEqual => .ok (.bool !a.equal b)
  | less | atMost | greater | atLeast => op.ordered a b
  | add => sum a b
  | _ => op.arithmetic a b

end BinaryOp

namespace Value

/-- The number of characters, items or entries. -/
def countText (s : String) : Value := int (Int64.ofNat s.length)

def countList {α : Type} (items : List α) : Value := int (Int64.ofNat items.length)

/-- A field of a map, or the length of a text or a list. What is not there is `null`. -/
def field (target : Value) (name : String) : Except EvalFault Value :=
  match target with
  | null => .ok null
  | map entries => .ok ((Table.get? entries name).getD null)
  | list items =>
    if name = "length" ∨ name = "size" then .ok (countList items)
    else .error (.noField name target.typeName)
  | str s => if name = "length" then .ok (countText s) else .error (.noField name target.typeName)
  | _ => .error (.noField name target.typeName)

/-- The entry at an index that may be negative or too large. -/
def at? {α : Type} (items : List α) (index : Int64) : Option α :=
  if index.toInt < 0 then none else items[index.toInt.toNat]?

/-- An item of a list, an entry of a map or a character of a text. What is not there is `null`. -/
def item (target index : Value) : Except EvalFault Value :=
  match target, index with
  | null, _ => .ok null
  | list items, int i => .ok ((at? items i).getD null)
  | map entries, str key => .ok ((Table.get? entries key).getD null)
  | str s, int i => .ok (((at? s.toList i).map fun c => str c.toString).getD null)
  | target, index => .error (.noItem target.typeName index.typeName)

end Value

end PipelineScript
