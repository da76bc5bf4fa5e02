import PipelineScript.Evaluation.Operators
import PipelineScript.Numeral.Reading
import PipelineScript.Text.LetterCase
import PipelineScript.Text.Slice

/-! # Builtin functions -/

namespace PipelineScript

/-- Is `part` somewhere in the text? -/
def Text.contains (part : List Char) : List Char → Bool
  | [] => part.isEmpty
  | c :: rest => part.isPrefixOf (c :: rest) || contains part rest

namespace Builtin

def size (v : Value) : Except EvalFault Value :=
  match v with
  | .str s => .ok (Value.countText s)
  | .list items => .ok (Value.countList items)
  | .map entries => .ok (Value.countList entries)
  | .null => .ok (.int 0)
  | v => .error (.badArgument len v.typeName)

/-- A double loses what is below its point, and one out of range gives the nearest integer. -/
def toInteger (v : Value) : Except EvalFault Value :=
  match v with
  | .int i => .ok (.int i)
  | .float x =>
    if Numeral.isFinite x then .ok (.int (Numeral.saturate (Numeral.truncate x)))
    else .error (.badArgument int v.typeName)
  | .bool b => .ok (.int (if b then 1 else 0))
  | .str s =>
    match Numeral.readInt64? (Text.trim s.toList) with
    | some i => .ok (.int i)
    | none => .error (.notInteger s)
  | v => .error (.badArgument int v.typeName)

def toNumber (v : Value) : Except EvalFault Value :=
  match v with
  | .int i => .ok (.float i.toFloat)
  | .float x => .ok (.float x)
  | .str s =>
    match Numeral.readFloat? (Text.trim s.toList) with
    | some x => .ok (.float x)
    | none => .error (.notNumber s)
  | v => .error (.badArgument float v.typeName)

def magnitude (v : Value) : Except EvalFault Value :=
  match v with
  | .int i => Value.ofExact i.toInt.natAbs
  | .float x => .ok (.float x.abs)
  | v => .error (.badArgument abs v.typeName)

/-- Is the text, item or key `needle` in `v`? -/
def holds (v needle : Value) : Except EvalFault Value :=
  match v, needle with
  | .str s, .str part => .ok (.bool (Text.contains part.toList s.toList))
  | .list items, needle => .ok (.bool (items.any fun item => item.equal needle))
  | .map entries, .str key => .ok (.bool (Table.has entries key))
  | .null, _ => .ok (.bool false)
  | v, _ => .error (.badArgument contains v.typeName)

def keysOf (v : Value) : Except EvalFault Value :=
  match v with
  | .map entries => .ok (.list ((Table.keys entries).map Value.str))
  | v => .error (.badArgument keys v.typeName)

/-- The best of `best` and `items`, an item being better that compares to it as `wanted`. -/
def extremeFrom (f : Builtin) (wanted : Ordering) (best : Value) :
    List Value → Except EvalFault Value
  | [] => .ok best
  | next :: rest =>
    match next.compare? best with
    | some o => extremeFrom f wanted (if o == wanted then next else best) rest
    | none => .error (.incomparable f next.typeName best.typeName)

/-- The best of the arguments, or of the items of a single list. -/
def extreme (f : Builtin) (wanted : Ordering) (args : List Value) : Except EvalFault Value :=
  let items := match args with
    | [.list items] => items
    | args => args
  match items with
  | [] => .error (.noArgument f)
  | first :: rest => extremeFrom f wanted first rest

/-- A function of one argument. -/
def applyOne (f : Builtin) (v : Value) : Except EvalFault Value :=
  match f, v with
  | len, v => size v
  | str, v => .ok (.str v.text)
  | int, v => toInteger v
  | float, v => toNumber v
  | abs, v => magnitude v
  | keys, v => keysOf v
  | upper, .str s => .ok (.str (Text.toUpperCase s))
  | lower, .str s => .ok (.str (Text.toLowerCase s))
  | typeOf, v => .ok (.str v.typeName)
  | isNull, v => .ok (.bool v.isNull)
  | f, v => .error (.badArgument f v.typeName)

def apply (f : Builtin) (args : List Value) : Except EvalFault Value :=
  match f, args with
  | min, args => extreme min .lt args
  | max, args => extreme max .gt args
  | contains, [v, needle] => holds v needle
  | contains, args => .error (.argumentCount contains 2 args.length)
  | f, [v] => applyOne f v
  | f, args => .error (.argumentCount f 1 args.length)

end Builtin

end PipelineScript
