import PipelineScript.Table
import PipelineScript.Value

/-! # What a `for` loop walks over

The items are settled before the first turn. A range is not written out: it may be long, and the
loop may be left early. -/

namespace PipelineScript

inductive Items where
  | listed (vs : List Value)
  /-- `left` integers from `next` on. -/
  | counted (next : Int) (left : Nat)

namespace Items

def size : Items → Nat
  | listed vs => vs.length
  | counted _ left => left

def next? : Items → Option (Value × Items)
  | listed [] => none
  | listed (v :: vs) => some (v, listed vs)
  | counted _ 0 => none
  | counted i (left + 1) => some (.int (Int64.ofInt i), counted (i + 1) left)

/-- The integers from `start` to `stop`, which is left out unless the range is inclusive. -/
def ofRange (start stop : Int64) (inclusive : Bool) : Items :=
  counted start.toInt (stop.toInt - start.toInt + (if inclusive then 1 else 0)).toNat

/-- The items of a list, the keys of a map, the characters of a text, and nothing for `null`. -/
def ofValue? : Value → Option Items
  | .list vs => some (listed vs)
  | .map entries => some (listed ((Table.keys entries).map Value.str))
  | .str s => some (listed (s.toList.map fun c => .str c.toString))
  | .null => some (listed [])
  | _ => none

theorem size_of_next? {items rest : Items} {v : Value} (h : items.next? = some (v, rest)) :
    items.size = rest.size + 1 := by
  unfold next? at h
  split at h <;> simp at h <;> obtain ⟨_, rfl⟩ := h <;> simp [size]

theorem next?_eq_none_iff {items : Items} : items.next? = none ↔ items.size = 0 := by
  unfold next?
  split <;> simp [size]

end Items

end PipelineScript
