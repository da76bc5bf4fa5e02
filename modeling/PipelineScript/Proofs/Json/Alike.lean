import Mathlib
import PipelineScript.Proofs.Table
import PipelineScript.Statement.Json

/-! # JSON up to the order of members

The members of an object are looked up by name, so their order does not matter to a reader. Text
that is read lists them in order of their names and not as they were written, which is why what a
reader restores is said of all values that are alike. -/

namespace PipelineScript.Json

/-- Equal, or equal but for the order of members: by every name the same is found. -/
inductive Alike : Json → Json → Prop
  | null : Alike null null
  | bool (b : Bool) : Alike (bool b) (bool b)
  | int (i : Int) : Alike (int i) (int i)
  | float (x : Float) : Alike (float x) (float x)
  | str (s : String) : Alike (str s) (str s)
  | arr {items items' : List Json} (h : List.Forall₂ Alike items items') :
    Alike (arr items) (arr items')
  | obj {members members' : List (String × Json)}
    (h : ∀ key, Option.Rel Alike (Table.get? members key) (Table.get? members' key)) :
    Alike (obj members) (obj members')

/-- An induction over values with all items and all members at once. -/
theorem induct {P : Json → Prop} (null : P .null) (bool : ∀ b, P (.bool b)) (int : ∀ i, P (.int i))
    (float : ∀ x, P (.float x)) (str : ∀ s, P (.str s))
    (arr : ∀ items, (∀ j ∈ items, P j) → P (.arr items))
    (obj : ∀ members, (∀ m ∈ members, P m.2) → P (.obj members)) : ∀ j, P j
  | .null => null
  | .bool b => bool b
  | .int i => int i
  | .float x => float x
  | .str s => str s
  | .arr items => arr items fun j hj =>
    have : sizeOf j < sizeOf items := List.sizeOf_lt_of_mem hj
    induct null bool int float str arr obj j
  | .obj members => obj members fun m hm =>
    have : sizeOf m < sizeOf members := List.sizeOf_lt_of_mem hm
    induct null bool int float str arr obj m.2
termination_by j => sizeOf j
decreasing_by
  · simp only [Json.arr.sizeOf_spec]; omega
  · obtain ⟨k, v⟩ := m
    simp only [Json.obj.sizeOf_spec, Prod.mk.sizeOf_spec] at *; omega

theorem Alike.refl (j : Json) : j.Alike j := by
  induction j using induct with
  | null => exact .null
  | bool b => exact .bool b
  | int i => exact .int i
  | float x => exact .float x
  | str s => exact .str s
  | arr items ih => exact .arr (List.forall₂_same.mpr ih)
  | obj members ih =>
    refine .obj fun key => ?_
    cases hfound : Table.get? members key with
    | none => exact .none
    | some v => exact .some (ih _ (Table.mem_of_get? hfound))

/-- The members have all these fields. -/
def Has (members : List (String × Json)) : List (String × Json) → Prop
  | [] => True
  | (key, v) :: rest => (∃ j, Table.get? members key = some j ∧ v.Alike j) ∧ Has members rest

theorem has_iff {members fields : List (String × Json)} : Has members fields ↔
    ∀ field ∈ fields, ∃ j, Table.get? members field.1 = some j ∧ field.2.Alike j := by
  induction fields with
  | nil => simp [Has]
  | cons field rest ih => rw [Has, List.forall_mem_cons, ih]

theorem Alike.has {fields : List (String × Json)} {j : Json} (h : (Json.obj fields).Alike j)
    (hkeys : (fields.map Prod.fst).Nodup) :
    ∃ members, j = .obj members ∧ Has members fields := by
  cases h with
  | @obj _ members h =>
    refine ⟨members, rfl, has_iff.mpr fun field hfield => ?_⟩
    have hkey := h field.1
    rw [Table.get?_of_mem hkeys hfield] at hkey
    cases hfound : Table.get? members field.1 with
    | none => rw [hfound] at hkey; cases hkey
    | some j =>
      rw [hfound] at hkey
      cases hkey with
      | some hv => exact ⟨j, rfl, hv⟩

theorem Alike.lacks {members members' : List (String × Json)} {key : String}
    (h : (Json.obj members).Alike (.obj members')) (hkey : Table.get? members key = none) :
    Table.get? members' key = none := by
  cases h with
  | obj h =>
    have hrel := h key
    rw [hkey] at hrel
    cases hkey' : Table.get? members' key with
    | none => rfl
    | some j => rw [hkey'] at hrel; cases hrel

/-- What was written for `a` reads as `a`, whatever the order of members. -/
def Restores {α : Type} (read? : Json → Option α) (written : Json) (a : α) : Prop :=
  ∀ j, written.Alike j → read? j = some a

namespace Restores

variable {α : Type} {read? : Json → Option α} {toJson : α → Json}

theorem text (s : String) : Restores text? (.str s) s := by rintro _ ⟨⟩; rfl

theorem bool (b : Bool) : Restores bool? (.bool b) b := by rintro _ ⟨⟩; rfl

theorem nat (n : Nat) : Restores nat? (.int n) n := by rintro _ ⟨⟩; simp [nat?]

theorem list {as : List α} (h : ∀ a ∈ as, Restores read? (toJson a) a) :
    Restores (list? read?) (.arr (as.map toJson)) as := by
  intro j hj
  cases hj with
  | arr hitems =>
    rw [List.forall₂_map_left_iff] at hitems
    rw [list?]
    induction hitems with
    | nil => rfl
    | cons hfirst _ ih =>
      obtain ⟨hread, hrest⟩ := List.forall_mem_cons.mp h
      rw [List.mapM_cons, hread _ hfirst, ih hrest]
      rfl

/-- A field that may be absent is written as `null`, which must stand for nothing else. -/
theorem optional {a? : Option α} (hnull : read? .null = none)
    (h : ∀ a ∈ a?, Restores read? (toJson a) a) {j : Json} (hj : (jsonOrNull toJson a?).Alike j) :
    optional? read? (some j) = some a? := by
  cases a? with
  | none => cases hj; rfl
  | some a =>
    have hread := h a rfl j hj
    cases j with
    | null => rw [hnull] at hread; cases hread
    | _ => simp [optional?, hread]

end Restores

end PipelineScript.Json
