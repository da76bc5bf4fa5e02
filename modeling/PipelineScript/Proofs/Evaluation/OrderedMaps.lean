import Mathlib
import PipelineScript.Proofs.Evaluation.Trees
import PipelineScript.Proofs.Expression.Variables
import PipelineScript.Proofs.Table

/-! # The order of maps

A map lists its entries in the order of their keys, and so does every map inside of a value.
Evaluation makes no maps but hands on those of its variables. Main statement:
`Memo.Sound.ordered_evaluate`. -/

namespace PipelineScript

namespace Value

/-- Neither a list nor a map. -/
def IsScalar : Value → Prop
  | list _ | map _ => False
  | _ => True

/-- The keys of all maps in the value ascend. -/
inductive Ordered : Value → Prop
  | scalar {v : Value} : v.IsScalar → Ordered v
  | list {items : List Value} : (∀ v ∈ items, Ordered v) → Ordered (.list items)
  | map {entries : Table Value} :
      entries.Ordered → (∀ entry ∈ entries, Ordered entry.2) → Ordered (.map entries)

namespace Ordered

theorem items {vs : List Value} (h : Ordered (.list vs)) : ∀ v ∈ vs, v.Ordered := by
  cases h with
  | scalar h => cases h
  | list h => exact h

theorem keys {entries : Table Value} (h : Ordered (.map entries)) : Table.Ordered entries := by
  cases h with
  | scalar h => cases h
  | map h => exact h

theorem values {entries : Table Value} (h : Ordered (.map entries)) :
    ∀ entry ∈ entries, entry.2.Ordered := by
  cases h with
  | scalar h => cases h
  | map _ h => exact h

/-- What is not there is `null`. -/
theorem getD {found : Option Value} (h : ∀ v, found = some v → v.Ordered) :
    (found.getD .null).Ordered := by
  cases found with
  | none => exact .scalar trivial
  | some v => exact h v rfl

end Ordered

theorem isScalar_ofExact {i : Int} {v : Value} (h : ofExact i = .ok v) : v.IsScalar := by
  unfold ofExact at h
  split at h <;> cases h
  trivial

variable {target index v : Value} {name : String}

theorem ordered_field (ht : target.Ordered) (h : target.field name = .ok v) : v.Ordered := by
  unfold field at h
  split at h
  · cases h
    exact .scalar trivial
  · cases h
    exact .getD fun v hv => ht.values _ (Table.mem_of_get? hv)
  · split at h <;> cases h
    exact .scalar trivial
  · split at h <;> cases h
    exact .scalar trivial
  · cases h

theorem mem_of_at? {α : Type} {items : List α} {i : Int64} {a : α} (h : at? items i = some a) :
    a ∈ items := by
  unfold at? at h
  split at h
  · cases h
  · exact List.mem_of_getElem? h

theorem ordered_item (ht : target.Ordered) (h : target.item index = .ok v) : v.Ordered := by
  unfold item at h
  split at h
  · cases h
    exact .scalar trivial
  · cases h
    exact .getD fun v hv => ht.items v (mem_of_at? hv)
  · cases h
    exact .getD fun v hv => ht.values _ (Table.mem_of_get? hv)
  · cases h
    refine .getD fun v hv => ?_
    obtain ⟨c, -, rfl⟩ := Option.map_eq_some_iff.mp hv
    exact .scalar trivial
  · cases h

end Value

open Value

/-! ## Operators -/

theorem UnaryOp.isScalar_apply {op : UnaryOp} {a v : Value} (h : op.apply a = .ok v) :
    v.IsScalar := by
  unfold UnaryOp.apply at h
  split at h
  · cases h
    trivial
  · exact isScalar_ofExact h
  · cases h
    trivial
  · cases h

namespace BinaryOp

variable {op : BinaryOp} {a b v : Value}

theorem isScalar_arithmetic (h : op.arithmetic a b = .ok v) : v.IsScalar := by
  unfold arithmetic at h
  split at h
  · unfold onInts at h
    repeat' split at h
    all_goals first
      | exact isScalar_ofExact h
      | cases h
  · split at h
    · unfold onFloats at h
      repeat' split at h
      all_goals cases h
      all_goals trivial
    · cases h

theorem ordered_sum (ha : a.Ordered) (hb : b.Ordered) (h : sum a b = .ok v) : v.Ordered := by
  unfold sum at h
  split at h
  · cases h
    exact .scalar trivial
  · cases h
    exact .scalar trivial
  · cases h
    exact .list (List.forall_mem_append.mpr ⟨ha.items, hb.items⟩)
  · exact .scalar (isScalar_arithmetic h)

theorem ordered_apply (ha : a.Ordered) (hb : b.Ordered) (h : op.apply a b = .ok v) :
    v.Ordered := by
  have hbool {c : Bool} (h : Except.ok (Value.bool c) = (.ok v : Except EvalFault Value)) :
      v.Ordered := by
    cases h
    exact .scalar trivial
  have hcompared (h : op.ordered a b = .ok v) : v.Ordered := by
    unfold BinaryOp.ordered at h
    split at h
    · exact hbool h
    · cases h
  cases op
  case or => exact hbool h
  case and => exact hbool h
  case equal => exact hbool h
  case notEqual => exact hbool h
  case less => exact hcompared h
  case atMost => exact hcompared h
  case greater => exact hcompared h
  case atLeast => exact hcompared h
  case add => exact ordered_sum ha hb h
  all_goals exact .scalar (isScalar_arithmetic h)

end BinaryOp

/-! ## Builtins -/

namespace Builtin

variable {f : Builtin} {args : List Value} {v : Value}

/-- The best of some values is one of them. -/
theorem mem_of_extremeFrom {wanted : Ordering} {best : Value}
    (h : extremeFrom f wanted best args = .ok v) : v ∈ best :: args := by
  induction args generalizing best with
  | nil =>
    cases h
    exact List.mem_cons_self
  | cons next rest ih =>
    unfold extremeFrom at h
    split at h
    · obtain heq | hin := List.mem_cons.mp (ih h)
      · split at heq
        · exact heq ▸ .tail _ (.head _)
        · exact heq ▸ .head _
      · exact .tail _ (.tail _ hin)
    · cases h

theorem ordered_extreme {wanted : Ordering} (hargs : ∀ a ∈ args, a.Ordered)
    (h : extreme f wanted args = .ok v) : v.Ordered := by
  unfold extreme at h
  split at h
  · rename_i items
    cases items with
    | nil => cases h
    | cons first rest =>
      exact (hargs _ List.mem_cons_self).items v (mem_of_extremeFrom h)
  · cases args with
    | nil => cases h
    | cons first rest => exact hargs v (mem_of_extremeFrom h)

theorem isScalar_size {a : Value} (h : size a = .ok v) : v.IsScalar := by
  unfold size at h
  split at h <;> cases h <;> trivial

theorem isScalar_toInteger {a : Value} (h : toInteger a = .ok v) : v.IsScalar := by
  unfold toInteger at h
  repeat' split at h
  all_goals cases h
  all_goals trivial

theorem isScalar_toNumber {a : Value} (h : toNumber a = .ok v) : v.IsScalar := by
  unfold toNumber at h
  repeat' split at h
  all_goals cases h
  all_goals trivial

theorem isScalar_magnitude {a : Value} (h : magnitude a = .ok v) : v.IsScalar := by
  unfold magnitude at h
  split at h
  · exact isScalar_ofExact h
  · cases h
    trivial
  · cases h

/-- Only `keys` gives no scalar but a list of texts. -/
theorem ordered_applyOne {a : Value} (h : applyOne f a = .ok v) : v.Ordered := by
  unfold applyOne at h
  split at h
  · exact .scalar (isScalar_size h)
  · cases h
    exact .scalar trivial
  · exact .scalar (isScalar_toInteger h)
  · exact .scalar (isScalar_toNumber h)
  · exact .scalar (isScalar_magnitude h)
  · unfold keysOf at h
    split at h <;> cases h
    refine .list fun key hkey => ?_
    obtain ⟨name, -, rfl⟩ := List.mem_map.mp hkey
    exact .scalar trivial
  all_goals cases h
  all_goals exact .scalar trivial

theorem ordered_apply (hargs : ∀ a ∈ args, a.Ordered) (h : f.apply args = .ok v) :
    v.Ordered := by
  unfold apply at h
  split at h
  · exact ordered_extreme hargs h
  · exact ordered_extreme hargs h
  · unfold holds at h
    split at h <;> cases h
    all_goals exact .scalar trivial
  · cases h
  · exact ordered_applyOne h
  · cases h

end Builtin

/-! ## Expressions -/

namespace Expression

mutual

/-- All literals are scalars. -/
def Plain : Expression → Prop
  | literal v => v.IsScalar
  | variable_ _ => True
  | list items => PlainAll items
  | unary _ operand => operand.Plain
  | binary _ left right => left.Plain ∧ right.Plain
  | choice condition yes no => condition.Plain ∧ yes.Plain ∧ no.Plain
  | field target _ => target.Plain
  | item target index => target.Plain ∧ index.Plain
  | call _ args => PlainAll args

def PlainAll : List Expression → Prop
  | [] => True
  | e :: rest => e.Plain ∧ PlainAll rest

end

def Phrase.Plain : Phrase → Prop
  | choice e | chain _ e | signed e | access e | atom e => e.Plain
  | list es | items es => PlainAll es

/-- The literals that can be written are scalars. -/
theorem plain_of_derives {p : Phrase} {ts : List Lexeme} (h : Derives p ts) : p.Plain := by
  induction h with
  | plain _ ih | operand _ ih | tighter _ ih | unsigned _ ih | whole _ ih | some _ ih => exact ih
  | negate _ ih | not _ ih | fieldIdent _ ih | fieldKeyword _ ih => exact ih
  | call _ ih | listed _ ih | parens _ ih => exact ih
  | int | float | str | true_ | false_ | null | variable_ | systemVariable | none => exact trivial
  | choice _ _ _ ihc ihy ihn => exact ⟨ihc, ihy, ihn⟩
  | binary _ _ _ ihl ihr => exact ⟨ihl, ihr⟩
  | item _ _ ih ihi => exact ⟨ih, ihi⟩
  | last _ ih => exact ⟨ih, trivial⟩
  | more _ _ ih ihs => exact ⟨ih, ihs⟩

theorem plain_of_ofSource {source : String} {e : Expression} (h : ofSource source = .ok e) :
    e.Plain := by
  obtain ⟨tokens, -, htree⟩ := bind_eq_ok.mp h
  exact plain_of_derives (ofLexemes_eq_ok_iff_derives.mp htree)

section

variable {vars : String → Option Value}

mutual

theorem ordered_eval (hvars : ∀ name v, vars name = some v → v.Ordered) :
    ∀ e : Expression, e.Plain → ∀ v, eval vars e = .ok v → v.Ordered
  | literal v, he, _, h => by
    cases h
    exact .scalar he
  | variable_ name, _, v, h => by
    unfold eval at h
    split at h
    · cases h
      exact hvars name v ‹_›
    · cases h
  | list items, he, v, h => by
    unfold eval at h
    obtain ⟨vs, hvs, h⟩ := bind_eq_ok.mp h
    cases h
    exact .list (ordered_evalAll hvars items he vs hvs)
  | unary op operand, _, v, h => by
    unfold eval at h
    obtain ⟨a, -, h⟩ := bind_eq_ok.mp h
    exact .scalar (UnaryOp.isScalar_apply h)
  | binary op left right, ⟨hleft, hright⟩, v, h => by
    unfold eval at h
    obtain ⟨a, ha, h⟩ := bind_eq_ok.mp h
    cases op
    case and =>
      dsimp only at h
      split at h
      · obtain ⟨b, -, h⟩ := bind_eq_ok.mp h
        cases h
        exact .scalar trivial
      · cases h
        exact .scalar trivial
    case or =>
      dsimp only at h
      split at h
      · cases h
        exact .scalar trivial
      · obtain ⟨b, -, h⟩ := bind_eq_ok.mp h
        cases h
        exact .scalar trivial
    all_goals
      obtain ⟨b, hb, h⟩ := bind_eq_ok.mp h
      exact BinaryOp.ordered_apply (ordered_eval hvars left hleft a ha)
        (ordered_eval hvars right hright b hb) h
  | choice condition yes no, ⟨_, hyes, hno⟩, v, h => by
    unfold eval at h
    obtain ⟨c, -, h⟩ := bind_eq_ok.mp h
    split at h
    · exact ordered_eval hvars yes hyes v h
    · exact ordered_eval hvars no hno v h
  | field target name, he, v, h => by
    unfold eval at h
    obtain ⟨a, ha, h⟩ := bind_eq_ok.mp h
    exact ordered_field (ordered_eval hvars target he a ha) h
  | item target index, ⟨htarget, _⟩, v, h => by
    unfold eval at h
    obtain ⟨a, ha, h⟩ := bind_eq_ok.mp h
    obtain ⟨i, -, h⟩ := bind_eq_ok.mp h
    exact ordered_item (ordered_eval hvars target htarget a ha) h
  | call name args, he, v, h => by
    unfold eval at h
    obtain ⟨vs, hvs, h⟩ := bind_eq_ok.mp h
    unfold callNamed at h
    split at h
    · exact Builtin.ordered_apply (ordered_evalAll hvars args he vs hvs) h
    · cases h

theorem ordered_evalAll (hvars : ∀ name v, vars name = some v → v.Ordered) :
    ∀ es : List Expression, PlainAll es → ∀ vs, evalAll vars es = .ok vs → ∀ v ∈ vs, v.Ordered
  | [], _, vs, h => by
    cases h
    exact List.forall_mem_nil _
  | e :: rest, ⟨he, hrest⟩, vs, h => by
    unfold evalAll at h
    obtain ⟨v, hv, h⟩ := bind_eq_ok.mp h
    obtain ⟨vs', hvs, h⟩ := bind_eq_ok.mp h
    cases h
    exact List.forall_mem_cons.mpr
      ⟨ordered_eval hvars e he v hv, ordered_evalAll hvars rest hrest vs' hvs⟩

end

end

end Expression

/-- The value of a text, where all variables have values that are in order. -/
theorem Memo.Sound.ordered_evaluate {m : Memo} (hm : m.Sound) {source : String}
    {vars : String → Option Value} (hvars : ∀ name v, vars name = some v → v.Ordered) {v : Value}
    (h : (m.evaluate source vars).1 = .ok v) : v.Ordered := by
  rw [hm.evaluate_eq] at h
  obtain ⟨e, he, h⟩ := Expression.bind_eq_ok.mp h
  cases htree : Expression.ofSource source with
  | error fault =>
    rw [htree] at he
    cases he
  | ok tree =>
    rw [htree] at he
    cases he
    exact Expression.ordered_eval hvars _ (Expression.plain_of_ofSource htree) v h

end PipelineScript
