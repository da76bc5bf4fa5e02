/-! Finite maps keyed by text. The entries are kept in ascending order of the key, and text is
ordered by code points, so a table lists its entries the way every report of them is written.
Look-up needs no order: it takes the first entry of a key, and `insert` leaves only one. -/

namespace PipelineScript

/-- A finite map from text to `α`. -/
abbrev Table (α : Type) := List (String × α)

namespace Table

variable {α : Type}

def get? : Table α → String → Option α
  | [], _ => none
  | (k, v) :: rest, key => if k = key then some v else get? rest key

def has (t : Table α) (key : String) : Bool := (get? t key).isSome

def insert : Table α → String → α → Table α
  | [], key, value => [(key, value)]
  | (k, v) :: rest, key, value =>
    if k = key then (key, value) :: rest
    else if key < k then (key, value) :: (k, v) :: rest
    else (k, v) :: insert rest key value

def erase : Table α → String → Table α
  | [], _ => []
  | (k, v) :: rest, key => if k = key then erase rest key else (k, v) :: erase rest key

/-- A later entry of a key replaces an earlier one. -/
def ofEntries (entries : List (String × α)) : Table α :=
  entries.foldl (fun t (k, v) => insert t k v) []

def keys (t : Table α) : List String := List.map Prod.fst t

theorem get?_insert (t : Table α) (key other : String) (value : α) :
    get? (insert t key value) other = if key = other then some value else get? t other := by
  induction t with
  | nil => simp [insert, get?]
  | cons entry rest ih =>
    obtain ⟨k, v⟩ := entry
    unfold insert
    split
    · rename_i h; subst h; by_cases h : k = other <;> simp [get?, h]
    · split
      · simp [get?]
      · by_cases h : k = other
        · subst h; rename_i h _; simp [get?, Ne.symm h]
        · simp [get?, h, ih]

theorem get?_erase (t : Table α) (key other : String) :
    get? (erase t key) other = if key = other then none else get? t other := by
  induction t with
  | nil => simp [erase, get?]
  | cons entry rest ih =>
    obtain ⟨k, v⟩ := entry
    by_cases h : k = key
    · subst h
      simp only [erase, if_pos, ih, get?]
      split <;> rfl
    · by_cases ho : k = other
      · subst ho; simp [erase, h, get?, Ne.symm h]
      · simp [erase, h, get?, ho, ih]

end Table

end PipelineScript
