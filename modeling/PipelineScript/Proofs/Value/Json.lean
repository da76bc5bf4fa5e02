import Mathlib
import PipelineScript.Proofs.Evaluation.OrderedMaps
import PipelineScript.Proofs.Json.Text
import PipelineScript.Task.Standard

/-! # Values survive JSON

JSON has a form for every value but dates, types and doubles that are no finite number, and the way
back gives such a value and no other; the other way round, what comes back is the JSON that was
stored if its whole numbers fit in 64 bits. The text of that JSON is left to the reader: where it
reads back what was written, as it does if there are no doubles, a value survives as text as well.
Main statement: `Value.json_faithful`. -/

namespace PipelineScript

theorem map_eq_self_iff {α : Type} {f : α → α} {as : List α} :
    as.map f = as ↔ ∀ a ∈ as, f a = a := by
  conv_lhs => rw [← List.map_id as]
  rw [List.map_map]
  exact List.map_inj_left

namespace Value

/-- An induction over values with all items and all entries at once. -/
theorem induct {P : Value → Prop} (null : P .null) (bool : ∀ b, P (.bool b)) (int : ∀ i, P (.int i))
    (float : ∀ x, P (.float x)) (str : ∀ s, P (.str s)) (date : ∀ d, P (.date d))
    (handle : ∀ name, P (.handle name)) (list : ∀ items, (∀ v ∈ items, P v) → P (.list items))
    (map : ∀ entries, (∀ entry ∈ entries, P entry.2) → P (.map entries)) : ∀ v, P v
  | .null => null
  | .bool b => bool b
  | .int i => int i
  | .float x => float x
  | .str s => str s
  | .date d => date d
  | .handle name => handle name
  | .list items => list items fun v hv =>
    have : sizeOf v < sizeOf items := List.sizeOf_lt_of_mem hv
    induct null bool int float str date handle list map v
  | .map entries => map entries fun entry hentry =>
    have : sizeOf entry < sizeOf entries := List.sizeOf_lt_of_mem hentry
    induct null bool int float str date handle list map entry.2
termination_by v => sizeOf v
decreasing_by
  · simp only [Value.list.sizeOf_spec]; omega
  · obtain ⟨k, v⟩ := entry
    simp only [Value.map.sizeOf_spec, Prod.mk.sizeOf_spec] at *; omega

/-- No dates, no types, and no doubles but finite ones. -/
inductive Expressible : Value → Prop
  | null : Expressible .null
  | bool (b : Bool) : Expressible (.bool b)
  | int (i : Int64) : Expressible (.int i)
  | float {x : Float} (h : Numeral.isFinite x) : Expressible (.float x)
  | str (s : String) : Expressible (.str s)
  | list {items : List Value} (h : ∀ v ∈ items, Expressible v) : Expressible (.list items)
  | map {entries : List (String × Value)} (h : ∀ entry ∈ entries, Expressible entry.2) :
    Expressible (.map entries)

theorem expressible_float_iff {x : Float} : Expressible (.float x) ↔ Numeral.isFinite x :=
  ⟨fun h => by cases h; assumption, .float⟩

theorem expressible_list_iff {items : List Value} :
    Expressible (.list items) ↔ ∀ v ∈ items, v.Expressible :=
  ⟨fun h => by cases h; assumption, .list⟩

theorem expressible_map_iff {entries : List (String × Value)} :
    Expressible (.map entries) ↔ ∀ entry ∈ entries, entry.2.Expressible :=
  ⟨fun h => by cases h; assumption, .map⟩

/-! ## There and back -/

section

variable (dateText : Instant → String)

theorem itemsJson_eq (items : List Value) :
    itemsJson dateText items = items.map (jsonWith dateText) := by
  induction items with
  | nil => rfl
  | cons v rest ih => rw [itemsJson, ih, List.map_cons]

theorem entriesJson_eq (entries : List (String × Value)) :
    entriesJson dateText entries = entries.map fun entry => (entry.1, jsonWith dateText entry.2) := by
  induction entries with
  | nil => rfl
  | cons entry rest ih =>
    obtain ⟨k, v⟩ := entry
    rw [entriesJson, ih, List.map_cons]

end

theorem ofItems_eq (js : List Json) : ofItems js = js.map ofJson := by
  induction js with
  | nil => rfl
  | cons j rest ih => rw [ofItems, ih, List.map_cons]

theorem ofMembers_eq (ms : List (String × Json)) :
    ofMembers ms = ms.map fun m => (m.1, ofJson m.2) := by
  induction ms with
  | nil => rfl
  | cons m rest ih =>
    obtain ⟨k, j⟩ := m
    rw [ofMembers, ih, List.map_cons]

/-- A value comes back from its JSON if JSON has a form for it, and only then: dates and types come
back as strings, and doubles that are not finite as `null`. -/
theorem ofJson_jsonWith_iff (dateText : Instant → String) (v : Value) :
    ofJson (jsonWith dateText v) = v ↔ v.Expressible := by
  induction v using induct with
  | null => exact iff_of_true rfl .null
  | bool b => exact iff_of_true rfl (.bool b)
  | int i =>
    refine iff_of_true ?_ (.int i)
    rw [jsonWith, ofJson, Numeral.toInt64?_toInt]
  | float x =>
    rw [expressible_float_iff, jsonWith]
    split
    · exact iff_of_true rfl ‹_›
    · exact iff_of_false nofun ‹_›
  | str s => exact iff_of_true rfl (.str s)
  | date d => exact iff_of_false nofun nofun
  | handle name => exact iff_of_false nofun nofun
  | list items ih =>
    rw [jsonWith, itemsJson_eq, ofJson, ofItems_eq, List.map_map, Value.list.injEq, map_eq_self_iff,
      expressible_list_iff]
    exact forall₂_congr ih
  | map entries ih =>
    rw [jsonWith, entriesJson_eq, ofJson, ofMembers_eq, List.map_map, Value.map.injEq,
      map_eq_self_iff, expressible_map_iff]
    refine forall₂_congr fun entry hentry => ?_
    rw [← ih entry hentry]
    exact Prod.ext_iff.trans (and_iff_right rfl)

end Value

namespace Json

/-- What a value can hold: whole numbers of 64 bits, with their sign, and finite doubles. -/
inductive Storable : Json → Prop
  | null : Storable .null
  | bool (b : Bool) : Storable (.bool b)
  | int {i : Int} (hmin : -2 ^ 63 ≤ i) (hmax : i < 2 ^ 63) : Storable (.int i)
  | float {x : Float} (h : Numeral.isFinite x) : Storable (.float x)
  | str (s : String) : Storable (.str s)
  | arr {items : List Json} (h : ∀ j ∈ items, Storable j) : Storable (.arr items)
  | obj {members : List (String × Json)} (h : ∀ m ∈ members, Storable m.2) : Storable (.obj members)

theorem storable_int_iff {i : Int} : Storable (.int i) ↔ -2 ^ 63 ≤ i ∧ i < 2 ^ 63 :=
  ⟨fun h => by cases h; exact ⟨‹_›, ‹_›⟩, fun h => .int h.1 h.2⟩

theorem storable_float_iff {x : Float} : Storable (.float x) ↔ Numeral.isFinite x :=
  ⟨fun h => by cases h; assumption, .float⟩

theorem storable_arr_iff {items : List Json} :
    Storable (.arr items) ↔ ∀ j ∈ items, j.Storable :=
  ⟨fun h => by cases h; assumption, .arr⟩

theorem storable_obj_iff {members : List (String × Json)} :
    Storable (.obj members) ↔ ∀ m ∈ members, m.2.Storable :=
  ⟨fun h => by cases h; assumption, .obj⟩

open Value (ofJson jsonWith)

/-- JSON that a value can hold comes back from it, and no other does: a whole number that does not
fit becomes a double. -/
theorem jsonWith_ofJson_iff (dateText : Instant → String) (j : Json) :
    jsonWith dateText (ofJson j) = j ↔ j.Storable := by
  induction j using induct with
  | null => exact iff_of_true rfl .null
  | bool b => exact iff_of_true rfl (.bool b)
  | int i =>
    rw [storable_int_iff, ofJson]
    split
    · rename_i w hw
      have hfits := Numeral.toInt_of_toInt64? hw
      have := w.le_toInt
      have := w.toInt_lt
      rw [jsonWith, hfits]
      exact iff_of_true rfl (by omega)
    · rename_i hnone
      refine iff_of_false ?_ ?_
      · rw [jsonWith]
        split <;> nofun
      · have hout := Numeral.toInt64?_eq_none_iff.mp hnone
        rw [Int64.toInt_minValue, Int64.toInt_maxValue] at hout
        omega
  | float x =>
    rw [storable_float_iff, ofJson, jsonWith]
    split
    · exact iff_of_true rfl ‹_›
    · exact iff_of_false nofun ‹_›
  | str s => exact iff_of_true rfl (.str s)
  | arr items ih =>
    rw [ofJson, Value.ofItems_eq, jsonWith, Value.itemsJson_eq, List.map_map, Json.arr.injEq,
      map_eq_self_iff, storable_arr_iff]
    exact forall₂_congr ih
  | obj members ih =>
    rw [ofJson, Value.ofMembers_eq, jsonWith, Value.entriesJson_eq, List.map_map, Json.obj.injEq,
      map_eq_self_iff, storable_obj_iff]
    refine forall₂_congr fun m hm => ?_
    rw [← ih m hm]
    exact Prod.ext_iff.trans (and_iff_right rfl)

end Json

/-! ## The text -/

namespace Value

/-- The members of its objects are in order already. -/
theorem Ordered.arranged_jsonWith {v : Value} (h : v.Ordered) (dateText : Instant → String) :
    (jsonWith dateText v).arranged = jsonWith dateText v := by
  induction h with
  | @scalar v h =>
    cases v with
    | list => cases h
    | map => cases h
    | float x =>
      rw [jsonWith]
      split <;> rfl
    | _ => rfl
  | list _ ih =>
    rw [jsonWith, itemsJson_eq, Json.arranged, Json.arrangedItems_eq, List.map_map]
    exact congrArg Json.arr (List.map_congr_left ih)
  | @map entries hordered _ ih =>
    have hmembers : Json.arrangedMembers (entriesJson dateText entries) =
        entriesJson dateText entries := by
      rw [entriesJson_eq, Json.arrangedMembers_eq, List.map_map]
      exact List.map_congr_left fun entry hentry => Prod.ext rfl (ih entry hentry)
    rw [jsonWith, Json.arranged, hmembers, entriesJson_eq]
    exact congrArg Json.obj (Table.Ordered.ofEntries_eq (List.pairwise_map.mpr hordered))

theorem parseJson_text {text : String} {j : Json} (h : Json.ofText? text = some j) (site : Site)
    (more : List Value) : Task.parseJson site (.str text :: more) = ⟨.value (ofJson j), 0⟩ := by
  unfold Task.parseJson Task.ofPure
  simp only [Task.first, asText?, h, bind, Except.bind]
  rfl

/-- Values are the same after they have been JSON, and after they have been text if its reader reads
the JSON that was written. It does so for values without doubles that are not too deep. -/
theorem json_faithful :
    (∀ v : Value, ofJson v.toJson = v ↔ v.Expressible) ∧
      (∀ j, (ofJson j).toJson = j ↔ j.Storable) ∧
      (∀ v : Value, v.Expressible → Json.ofText? v.toJson.compact = some v.toJson →
        ∀ site site' more more', ∃ text,
          Task.toJson site (v :: more) = ⟨.value (.str text), 0⟩ ∧
          Task.parseJson site' (.str text :: more') = ⟨.value v, 0⟩) ∧
      ∀ v : Value, v.Ordered → Json.Plain 127 v.toJson →
        Json.ofText? v.toJson.compact = some v.toJson := by
  refine ⟨ofJson_jsonWith_iff _, Json.jsonWith_ofJson_iff _,
    fun v hv hread site site' more more' => ⟨v.toJson.compact, rfl, ?_⟩, fun v hv hplain => ?_⟩
  · have hback : ofJson v.toJson = v := (ofJson_jsonWith_iff _ v).mpr hv
    rw [parseJson_text hread, hback]
  · rw [hplain.ofText?_compact]
    exact congrArg some (hv.arranged_jsonWith _)

/-- Whole doubles stay doubles, and zero keeps its sign. -/
theorem json_faithful_doubles :
    let v : Value := .map [("name", .str "nf"),
      ("tags", .list [.int 1, .float 1.0, .float (-0.0), .float 2.5, .null])]
    let half : Value := .list [.float 2.5]
    let plain : Value := .list [.int (-5), .map [("a", .bool true), ("b", .list [.str "\""])]]
    v.Expressible ∧ ofJson v.toJson = v ∧ v.toJson.Storable ∧
      half.Expressible ∧ Json.ofText? half.toJson.compact = some half.toJson ∧
      (∀ site, ∃ text, Task.toJson site [half] = ⟨.value (.str text), 0⟩ ∧
        Task.parseJson site [.str text] = ⟨.value half, 0⟩) ∧
      plain.Ordered ∧ Json.Plain 127 plain.toJson ∧
      Json.ofText? plain.toJson.compact = some plain.toJson := by
  intro v half plain
  obtain ⟨hvalue, hjson, htasks, hread⟩ := json_faithful
  have hv : v.Expressible := by
    refine .map (List.forall_mem_cons.mpr ⟨.str _, List.forall_mem_singleton.mpr (.list ?_)⟩)
    have hfinite : ∀ x ∈ [1.0, -0.0, 2.5], Numeral.isFinite x := by decide
    simp_all [expressible_float_iff, Expressible.int, Expressible.null]
  have hhalf : half.Expressible := .list (List.forall_mem_singleton.mpr (.float (by decide)))
  have htext : half.toJson.compact = "[2.5]" := by decide +kernel
  have hback : Json.ofText? half.toJson.compact = some half.toJson := by
    rw [htext]
    rfl
  have hordered : plain.Ordered := by
    have hb : (Value.list [.str "\""]).Ordered :=
      .list (List.forall_mem_singleton.mpr (.scalar trivial))
    refine .list (List.forall_mem_cons.mpr ⟨.scalar trivial, List.forall_mem_singleton.mpr ?_⟩)
    refine .map (List.pairwise_pair.mpr (by decide)) ?_
    exact List.forall_mem_cons.mpr ⟨.scalar trivial, List.forall_mem_singleton.mpr hb⟩
  have hplain : Json.Plain 127 plain.toJson := by
    have hb : Json.Plain 125 (.arr [.str "\""]) := .arr (List.forall_mem_singleton.mpr (.str _))
    refine .arr (List.forall_mem_cons.mpr ⟨.int (by decide) (by decide), ?_⟩)
    refine List.forall_mem_singleton.mpr (.obj (by decide) ?_)
    exact List.forall_mem_cons.mpr ⟨.bool true, List.forall_mem_singleton.mpr hb⟩
  exact ⟨hv, (hvalue v).mpr hv, (hjson _).mp (congrArg toJson ((hvalue v).mpr hv)), hhalf, hback,
    fun site => htasks half hhalf hback site site [] [], hordered, hplain,
    hread plain hordered hplain⟩

end Value

end PipelineScript
