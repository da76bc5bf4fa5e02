import Mathlib
import PipelineScript.Table

/-! # Tables as finite maps

A table is read by looking for the first entry of a name, and two tables that are read alike are
the same finite map. As long as its entries stay in order, which `insert` and `erase` see to, a
table has one entry of a name, and whoever goes through its entries finds what look-up finds. -/

namespace PipelineScript.Table

variable {α β : Type} {t : Table α} {key : String} {a : α}

/-! ## Entries -/

theorem mem_of_get? (h : get? t key = some a) : (key, a) ∈ t := by
  induction t with
  | nil => cases h
  | cons entry rest ih =>
    obtain ⟨k, v⟩ := entry
    unfold get? at h
    split at h
    · rename_i hk
      cases h
      exact hk ▸ List.mem_cons_self
    · exact List.mem_cons_of_mem _ (ih h)

/-- Where no name has two entries, look-up finds all of them. -/
theorem get?_of_mem (h : (t.map Prod.fst).Nodup) (hentry : (key, a) ∈ t) :
    get? t key = some a := by
  induction t with
  | nil => cases hentry
  | cons entry rest ih =>
    obtain ⟨k, v⟩ := entry
    obtain ⟨hfresh, hrest⟩ := List.nodup_cons.mp h
    obtain heq | hin := List.mem_cons.mp hentry
    · cases heq
      simp [get?]
    · have hk : k ≠ key := fun hk => hfresh (List.mem_map.mpr ⟨_, hin, hk.symm⟩)
      rw [get?, if_neg hk, ih hrest hin]

theorem get?_eq_none (h : key ∉ t.map Prod.fst) : get? t key = none := by
  cases hfound : get? t key with
  | none => rfl
  | some a => exact absurd (List.mem_map_of_mem (mem_of_get? hfound)) h

theorem mem_keys_iff : key ∈ keys t ↔ has t key := by
  induction t with
  | nil => simp [keys, has, get?]
  | cons entry rest ih =>
    obtain ⟨k, a⟩ := entry
    by_cases hk : k = key
    · simp [keys, has, get?, hk]
    · have hrest : key ∈ rest.map Prod.fst ↔ (get? rest key).isSome := ih
      simp [keys, has, get?, hk, Ne.symm hk, ← hrest]

/-- Entries that are put one after another over those of a table. -/
theorem get?_foldl_insert (h : (t.map Prod.fst).Nodup) (f : α → β) (under : Table β)
    (name : String) : get? (t.foldl (fun u (key, a) => Table.insert u key (f a)) under) name =
      ((get? t name).map f).or (get? under name) := by
  induction t generalizing under with
  | nil => rfl
  | cons entry rest ih =>
    obtain ⟨k, v⟩ := entry
    obtain ⟨hfresh, hrest⟩ := List.nodup_cons.mp h
    rw [List.foldl_cons, ih hrest, get?_insert, get?]
    split
    · rename_i hk
      rw [← hk, get?_eq_none hfresh]
      rfl
    · rfl

theorem get?_ofEntries (h : (t.map Prod.fst).Nodup) (name : String) :
    get? (ofEntries t) name = get? t name := by
  simpa [get?, ofEntries] using get?_foldl_insert h id [] name

theorem eq_or_mem_of_mem_insert {entry : String × α} (h : entry ∈ insert t key a) :
    entry = (key, a) ∨ entry ∈ t := by
  induction t with
  | nil => exact .inl (List.mem_singleton.mp h)
  | cons first rest ih =>
    obtain ⟨k, v⟩ := first
    unfold insert at h
    split at h
    · exact (List.mem_cons.mp h).imp_right (List.mem_cons_of_mem _)
    · split at h
      · exact List.mem_cons.mp h
      · obtain rfl | h := List.mem_cons.mp h
        · exact .inr List.mem_cons_self
        · exact (ih h).imp_right (List.mem_cons_of_mem _)

theorem insert_of_lt {other : String} (h : key < other) (a b : α) (t : Table α) :
    insert (insert t key a) other b = insert (insert t other b) key a := by
  have hne : key ≠ other := h.ne
  have hnot : ¬ other < key := h.asymm
  induction t with
  | nil => simp [insert, hne, hne.symm, h, hnot]
  | cons entry rest ih =>
    obtain ⟨k, v⟩ := entry
    rcases lt_trichotomy k key with hk | rfl | hk
    · have hko := hk.trans h
      simp [insert, hk.ne, hk.asymm, hko.ne, hko.asymm, ih]
    · simp [insert, hne, hnot]
    · rcases lt_trichotomy k other with hko | rfl | hko
      · simp [insert, hk.ne', hk, hko.ne, hko.asymm, hne, hnot]
      · simp [insert, hk.ne', hk, hne, hnot]
      · simp [insert, hk.ne', hk, hko.ne', hko, h, hne, hne.symm, hnot]

/-- It makes no difference which of two entries comes first, if their names differ. -/
theorem insert_comm {other : String} (h : key ≠ other) (a b : α) (t : Table α) :
    insert (insert t key a) other b = insert (insert t other b) key a :=
  h.lt_or_gt.elim (fun hlt => insert_of_lt hlt a b t) fun hgt => (insert_of_lt hgt b a t).symm

theorem length_insert_le (t : Table α) (key : String) (a : α) :
    (insert t key a).length ≤ t.length + 1 := by
  induction t with
  | nil => simp [insert]
  | cons entry rest ih =>
    obtain ⟨k, v⟩ := entry
    unfold insert
    split
    · simp
    · split <;> simp [ih]

theorem mem_of_mem_foldl_insert {under : Table α} {entry : String × α}
    (h : entry ∈ t.foldl (fun u (k, v) => insert u k v) under) : entry ∈ under ∨ entry ∈ t := by
  induction t generalizing under with
  | nil => exact .inl h
  | cons first rest ih =>
    obtain h | h := ih h
    · obtain rfl | h := eq_or_mem_of_mem_insert h
      · exact .inr List.mem_cons_self
      · exact .inl h
    · exact .inr (List.mem_cons_of_mem _ h)

/-- The entries of a table are among those that it is made of. -/
theorem mem_of_mem_ofEntries {entry : String × α} (h : entry ∈ ofEntries t) : entry ∈ t :=
  (mem_of_mem_foldl_insert h).resolve_left List.not_mem_nil

theorem erase_sublist (t : Table α) (key : String) : (erase t key).Sublist t := by
  induction t with
  | nil => exact .slnil
  | cons entry rest ih =>
    obtain ⟨k, v⟩ := entry
    unfold erase
    split
    · exact ih.cons _
    · exact ih.cons_cons _

/-- The entries are in ascending order of their names, and no name has two. -/
def Ordered (t : Table α) : Prop := t.Pairwise fun entry later => entry.1 < later.1

namespace Ordered

theorem nil : Ordered ([] : Table α) := List.Pairwise.nil

theorem insert (h : t.Ordered) (key : String) (a : α) : (Table.insert t key a).Ordered := by
  induction h with
  | nil => exact List.pairwise_singleton _ _
  | @cons entry rest hfirst hrest ih =>
    obtain ⟨k, v⟩ := entry
    unfold Table.insert
    split
    · rename_i hk
      subst hk
      exact .cons hfirst hrest
    · rename_i hk
      split
      · rename_i hlt
        refine .cons ?_ (.cons hfirst hrest)
        exact List.forall_mem_cons.mpr ⟨hlt, fun e he => lt_trans hlt (hfirst e he)⟩
      · rename_i hlt
        refine .cons (fun e he => ?_) ih
        obtain rfl | he := eq_or_mem_of_mem_insert he
        · exact lt_of_le_of_ne (not_lt.mp hlt) hk
        · exact hfirst e he

theorem erase (h : t.Ordered) (key : String) : (Table.erase t key).Ordered :=
  h.sublist (erase_sublist t key)

theorem nodup_keys (h : t.Ordered) : (t.map Prod.fst).Nodup :=
  List.pairwise_map.mpr (h.imp ne_of_lt)

/-- No later entry has the name of the first. -/
theorem get?_rest {rest : Table α} (h : Ordered ((key, a) :: rest)) : get? rest key = none :=
  get?_eq_none (List.nodup_cons.mp h.nodup_keys).1

theorem get?_foldl_insert (h : t.Ordered) (f : α → β) (under : Table β) (name : String) :
    get? (t.foldl (fun u (key, a) => Table.insert u key (f a)) under) name =
      ((get? t name).map f).or (get? under name) :=
  Table.get?_foldl_insert h.nodup_keys f under name

theorem foldl_insert {under : Table α} (h : under.Ordered) (entries : List (String × α)) :
    (entries.foldl (fun t (k, v) => Table.insert t k v) under).Ordered := by
  induction entries generalizing under with
  | nil => exact h
  | cons entry rest ih => exact ih (h.insert _ _)

theorem ofEntries (entries : List (String × α)) : (Table.ofEntries entries).Ordered :=
  foldl_insert nil entries

/-- Tables in order that are read alike are the same. -/
theorem ext {u : Table α} (h : t.Ordered) (hu : u.Ordered)
    (hget : ∀ key, get? t key = get? u key) : t = u := by
  induction t generalizing u with
  | nil =>
    cases u with
    | nil => rfl
    | cons entry rest => simpa [get?] using hget entry.1
  | cons entry rest ih =>
    obtain ⟨k, a⟩ := entry
    cases u with
    | nil => simpa [get?] using hget k
    | cons entry' rest' =>
      obtain ⟨k', a'⟩ := entry'
      obtain ⟨hfirst, hrest⟩ := List.pairwise_cons.mp h
      obtain ⟨hfirst', hrest'⟩ := List.pairwise_cons.mp hu
      -- each of the two first names is found in the other table, so neither is the smaller one
      have hmem : (k, a) ∈ (k', a') :: rest' := mem_of_get? ((hget k).symm.trans (by simp [get?]))
      have hmem' : (k', a') ∈ (k, a) :: rest := mem_of_get? ((hget k').trans (by simp [get?]))
      have heq : (k, a) = (k', a') := by
        obtain heq | hin := List.mem_cons.mp hmem
        · exact heq
        · obtain heq' | hin' := List.mem_cons.mp hmem'
          · exact heq'.symm
          · exact absurd (hfirst' _ hin) (lt_asymm (hfirst _ hin'))
      cases heq
      refine congrArg _ (ih hrest hrest' fun key => ?_)
      by_cases hk : k = key
      · rw [← hk, h.get?_rest, hu.get?_rest]
      · simpa [get?, hk] using hget key

/-- What is in order already stays as it is. -/
theorem ofEntries_eq (h : t.Ordered) : Table.ofEntries t = t :=
  (Ordered.ofEntries t).ext h fun key => get?_ofEntries h.nodup_keys key

end Ordered

/-! ## Maps -/

def toFinmap (t : Table α) : Finmap fun _ : String => α :=
  (t.map fun (key, a) => (⟨key, a⟩ : Σ _ : String, α)).toFinmap

@[simp] theorem lookup_toFinmap (t : Table α) (key : String) :
    t.toFinmap.lookup key = get? t key := by
  rw [toFinmap, Finmap.dlookup_list_toFinmap]
  induction t with
  | nil => rfl
  | cons entry rest ih =>
    obtain ⟨k, a⟩ := entry
    by_cases hk : k = key
    · subst hk
      simp [get?]
    · rw [List.map_cons, List.dlookup_cons_ne _ _ (Ne.symm hk), ih, get?, if_neg hk]

theorem toFinmap_insert (t : Table α) (key : String) (a : α) :
    toFinmap (insert t key a) = t.toFinmap.insert key a := by
  refine Finmap.ext_lookup fun other => ?_
  rw [lookup_toFinmap, get?_insert]
  split
  · rename_i hk
    rw [← hk, Finmap.lookup_insert]
  · rename_i hk
    rw [Finmap.lookup_insert_of_ne _ (Ne.symm hk), lookup_toFinmap]

theorem toFinmap_erase (t : Table α) (key : String) :
    toFinmap (erase t key) = t.toFinmap.erase key := by
  refine Finmap.ext_lookup fun other => ?_
  rw [lookup_toFinmap, get?_erase]
  split
  · rename_i hk
    rw [← hk, Finmap.lookup_erase]
  · rename_i hk
    rw [Finmap.lookup_erase_ne (Ne.symm hk), lookup_toFinmap]

end PipelineScript.Table
