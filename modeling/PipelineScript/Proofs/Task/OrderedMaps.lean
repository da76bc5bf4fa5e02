import Mathlib
import PipelineScript.CommandLine
import PipelineScript.Proofs.Run.OrderedMaps
import PipelineScript.Proofs.Value.Json
import PipelineScript.Task.Standard

/-! # The order of maps from outside

Maps come into a run from its host and from its tasks. The ones that are read from text have their
keys in ascending order, because the reader sorts the members of an object (`Json.ordered_ofText`).
So the standard tasks make no other maps (`Task.ordered_standard`), and neither does the command
line (`CommandLine.ordered_hostValues`): all maps of its runs are in order
(`CommandLine.ordered_runList`). -/

namespace PipelineScript

open Expression (bind_eq_ok)

namespace Value

theorem ordered_ofItems {js : List Json} (h : ∀ j ∈ js, (ofJson j).Ordered) :
    (ofJson (.arr js)).Ordered := by
  rw [ofJson, ofItems_eq]
  exact .list (List.forall_mem_map.mpr h)

/-- The members that are read come into order, and the last one of a key counts. -/
theorem ordered_ofMembers {ms : List (String × Json)} (h : ∀ m ∈ ms, (ofJson m.2).Ordered) :
    (ofJson (.obj (Table.ofEntries ms))).Ordered := by
  rw [ofJson, ofMembers_eq]
  refine .map (List.pairwise_map.mpr (Table.Ordered.ofEntries ms)) ?_
  exact List.forall_mem_map.mpr fun m hm => h m (Table.mem_of_mem_ofEntries hm)

theorem isScalar_ofInt (i : Int) : (ofJson (.int i)).IsScalar := by
  unfold ofJson
  split <;> trivial

end Value

namespace Json

open Value

theorem isScalar_ofWhole (negative : Bool) (value : Nat) :
    (ofJson (ofWhole negative value)).IsScalar := by
  unfold ofWhole
  split
  · split
    · trivial
    · exact isScalar_ofInt _
  · exact isScalar_ofInt _

/-- A number that is read is a double or a whole number. -/
theorem readUnsigned_cases {negative : Bool} {cs rest : List Char} {j : Json}
    (h : readUnsigned negative cs = some (j, rest)) :
    (∃ x, j = .float x) ∨ ∃ value, j = ofWhole negative value := by
  unfold readUnsigned at h
  dsimp only at h
  repeat' split at h
  all_goals simp only [Option.bind_eq_bind, Option.bind_eq_some_iff, Option.map_eq_some_iff,
    Option.some.injEq, Prod.mk.injEq, reduceCtorEq] at h
  all_goals first
    | obtain ⟨_, -, x, -, rfl, -⟩ := h
      exact .inl ⟨x, rfl⟩
    | obtain ⟨x, -, rfl, -⟩ := h
      exact .inl ⟨x, rfl⟩
    | obtain ⟨rfl, -⟩ := h
      exact .inr ⟨_, rfl⟩

theorem isScalar_readNumber {cs rest : List Char} {j : Json}
    (h : readNumber cs = some (j, rest)) : (ofJson j).IsScalar := by
  unfold readNumber at h
  split at h
  all_goals obtain ⟨x, rfl⟩ | ⟨value, rfl⟩ := readUnsigned_cases h
  all_goals first
    | trivial
    | exact isScalar_ofWhole _ _

/-- What a reader reads has the property, however deep it may nest. -/
def Yields {α : Type} (P : α → Prop) (read : Nat → List Char → Option (α × List Char)) : Prop :=
  ∀ depth cs a rest, read depth cs = some (a, rest) → P a

section

variable {fuel : Nat}

theorem yields_readValue
    (hitems : Yields (fun js => ∀ j ∈ js, (ofJson j).Ordered) (readItems fuel))
    (hmembers : Yields (fun ms => ∀ m ∈ ms, (ofJson m.2).Ordered) (readMembers fuel)) :
    Yields (fun j => (ofJson j).Ordered) (readValue (fuel + 1)) := by
  intro depth cs j rest h
  unfold readValue at h
  split at h
  case h_1 =>
    obtain ⟨_, -, ⟨⟩⟩ := Option.map_eq_some_iff.mp h
    exact .scalar trivial
  case h_2 =>
    split at h
    · cases h
      exact ordered_ofItems (List.forall_mem_nil _)
    · obtain ⟨_, hjs, ⟨⟩⟩ := Option.map_eq_some_iff.mp h
      exact ordered_ofItems (hitems _ _ _ _ hjs)
  case h_3 =>
    split at h
    · cases h
      exact ordered_ofMembers (List.forall_mem_nil _)
    · obtain ⟨_, hms, ⟨⟩⟩ := Option.map_eq_some_iff.mp h
      exact ordered_ofMembers (hmembers _ _ _ _ hms)
  case h_7 => exact .scalar (isScalar_readNumber h)
  all_goals
    cases h
    exact .scalar trivial

theorem yields_readItems (hvalue : Yields (fun j => (ofJson j).Ordered) (readValue fuel))
    (hitems : Yields (fun js => ∀ j ∈ js, (ofJson j).Ordered) (readItems fuel)) :
    Yields (fun js => ∀ j ∈ js, (ofJson j).Ordered) (readItems (fuel + 1)) := by
  intro depth cs js rest h
  unfold readItems at h
  obtain ⟨⟨j, after⟩, hj, h⟩ := Option.bind_eq_some_iff.mp h
  have hfirst := hvalue _ _ _ _ hj
  dsimp only at h
  split at h
  · obtain ⟨⟨js, after⟩, hjs, ⟨⟩⟩ := Option.bind_eq_some_iff.mp h
    exact List.forall_mem_cons.mpr ⟨hfirst, hitems _ _ _ _ hjs⟩
  · cases h
    exact List.forall_mem_singleton.mpr hfirst
  · cases h

theorem yields_readMembers (hvalue : Yields (fun j => (ofJson j).Ordered) (readValue fuel))
    (hmembers : Yields (fun ms => ∀ m ∈ ms, (ofJson m.2).Ordered) (readMembers fuel)) :
    Yields (fun ms => ∀ m ∈ ms, (ofJson m.2).Ordered) (readMembers (fuel + 1)) := by
  intro depth cs ms rest h
  unfold readMembers at h
  split at h
  case h_2 => cases h
  obtain ⟨⟨k, after⟩, -, h⟩ := Option.bind_eq_some_iff.mp h
  dsimp only at h
  split at h
  case h_2 => cases h
  obtain ⟨⟨j, after⟩, hj, h⟩ := Option.bind_eq_some_iff.mp h
  have hfirst := hvalue _ _ _ _ hj
  dsimp only at h
  split at h
  · obtain ⟨⟨ms, after⟩, hms, ⟨⟩⟩ := Option.bind_eq_some_iff.mp h
    exact List.forall_mem_cons.mpr ⟨hfirst, hmembers _ _ _ _ hms⟩
  · cases h
    exact List.forall_mem_singleton.mpr hfirst
  · cases h

end

/-- Each of the three readers calls the others with less fuel. -/
theorem yields_ordered (fuel : Nat) :
    Yields (fun j => (ofJson j).Ordered) (readValue fuel) ∧
    Yields (fun js => ∀ j ∈ js, (ofJson j).Ordered) (readItems fuel) ∧
    Yields (fun ms => ∀ m ∈ ms, (ofJson m.2).Ordered) (readMembers fuel) := by
  induction fuel with
  | zero => exact ⟨fun _ _ _ _ => nofun, fun _ _ _ _ => nofun, fun _ _ _ _ => nofun⟩
  | succ fuel ih =>
    obtain ⟨hvalue, hitems, hmembers⟩ := ih
    exact ⟨yields_readValue hitems hmembers, yields_readItems hvalue hitems,
      yields_readMembers hvalue hmembers⟩

theorem ordered_ofText {text : String} {j : Json} (h : ofText? text = some j) :
    (ofJson j).Ordered := by
  unfold ofText? at h
  dsimp only at h
  split at h
  case h_2 => cases h
  next hread =>
    split at h <;> cases h
    exact (yields_ordered _).1 _ _ _ _ hread

end Json

/-! ## Tasks -/

namespace Task

/-- The values of a task have maps in order if its arguments do. -/
def Ordered (task : Task) : Prop :=
  ∀ site args, (∀ a ∈ args, a.Ordered) → ∀ v, (task site args).outcome = .value v → v.Ordered

theorem Ordered.ofPure {f : List Value → Except String Value}
    (h : ∀ args, (∀ a ∈ args, a.Ordered) → ∀ v, f args = .ok v → v.Ordered) :
    (ofPure f).Ordered := by
  intro site args hargs v hv
  unfold Task.ofPure at hv
  split at hv <;> cases hv
  next hf => exact h args hargs v hf

theorem mem_of_first {name : String} {args : List Value} {v : Value}
    (h : first name args = .ok v) : v ∈ args := by
  cases args with
  | nil => cases h
  | cons a rest =>
    cases h
    exact List.mem_cons_self

theorem ordered_sleep : sleep.Ordered := by
  intro site args hargs v hv
  unfold sleep at hv
  repeat' split at hv
  all_goals cases hv
  exact .scalar trivial

theorem ordered_now : now.Ordered := by
  rintro site args hargs v ⟨⟩
  exact .scalar trivial

theorem ordered_parseJson : parseJson.Ordered := by
  refine .ofPure fun args hargs v hv => ?_
  obtain ⟨a, -, hv⟩ := bind_eq_ok.mp hv
  split at hv
  · cases hv
  · split at hv <;> cases hv
    next hj => exact Json.ordered_ofText hj

theorem ordered_toJson : toJson.Ordered := by
  refine .ofPure fun args hargs v hv => ?_
  obtain ⟨a, -, ⟨⟩⟩ := bind_eq_ok.mp hv
  exact .scalar trivial

theorem ordered_env : env.Ordered := by
  intro site
  refine Ordered.ofPure (fun args hargs v hv => ?_) site
  obtain ⟨a, -, hv⟩ := bind_eq_ok.mp hv
  split at hv <;> cases hv
  refine .getD fun v hv => ?_
  obtain ⟨text, -, rfl⟩ := Option.map_eq_some_iff.mp hv
  exact .scalar trivial

theorem ordered_fail : fail.Ordered := by
  refine .ofPure fun args hargs v hv => ?_
  split at hv <;> cases hv

theorem ordered_identity : identity.Ordered :=
  .ofPure fun _ hargs v hv => hargs v (mem_of_first hv)

theorem ordered_standard : standard.Ordered := by
  intro name task hget
  have hmem := Table.mem_of_mem_ofEntries (Table.mem_of_get? hget)
  simp only [List.mem_cons, List.not_mem_nil, or_false, Prod.mk.injEq] at hmem
  obtain ⟨-, rfl⟩ | ⟨-, rfl⟩ | ⟨-, rfl⟩ | ⟨-, rfl⟩ | ⟨-, rfl⟩ | ⟨-, rfl⟩ | ⟨-, rfl⟩ := hmem
  exacts [ordered_sleep, ordered_now, ordered_parseJson, ordered_toJson, ordered_env, ordered_fail,
    ordered_identity]

end Task

/-! ## The host -/

namespace CommandLine

theorem ordered_readParam {param key : String} {v : Value} (h : readParam param = .ok (key, v)) :
    v.Ordered := by
  unfold readParam at h
  dsimp only at h
  repeat' split at h
  all_goals cases h
  cases hj : Json.ofText? _ with
  | none => exact .scalar trivial
  | some j => exact Json.ordered_ofText hj

theorem ordered_readParams {params : List String} {entries : List (String × Value)}
    (h : params.mapM readParam = .ok entries) : ∀ entry ∈ entries, entry.2.Ordered := by
  induction params generalizing entries with
  | nil =>
    cases h
    exact List.forall_mem_nil _
  | cons param rest ih =>
    rw [List.mapM_cons] at h
    obtain ⟨⟨key, v⟩, hv, h⟩ := bind_eq_ok.mp h
    obtain ⟨entries, hrest, ⟨⟩⟩ := bind_eq_ok.mp h
    exact List.forall_mem_cons.mpr ⟨ordered_readParam hv, ih hrest⟩

theorem ordered_hostEntries {preValue entries pool : List (String × Value)} {params : List String}
    (hpre : ∀ entry ∈ preValue, entry.2.Ordered) (hparams : params.mapM readParam = .ok entries)
    (hpool : ∀ entry ∈ pool, entry.2.Ordered) :
    ∀ entry ∈ Table.ofEntries (preValue ++
        (if entries = [] then [] else [("params", .map (Table.ofEntries entries))]) ++ pool),
      entry.2.Ordered := by
  have hmap : (Value.map (Table.ofEntries entries)).Ordered :=
    .map (Table.Ordered.ofEntries entries) fun entry hin =>
      ordered_readParams hparams entry (Table.mem_of_mem_ofEntries hin)
  intro entry hin
  obtain hin | hin := List.mem_append.mp (Table.mem_of_mem_ofEntries hin)
  · obtain hin | hin := List.mem_append.mp hin
    · exact hpre entry hin
    · split at hin
      · cases hin
      · obtain rfl := List.mem_singleton.mp hin
        exact hmap
  · exact hpool entry hin

theorem ordered_hostValues {o : RunOptions} {host : HostValues} (h : hostValues o = .ok host) :
    ∀ entry ∈ host, entry.2.Ordered := by
  unfold hostValues at h
  dsimp only at h
  split at h
  case h_2 =>
    split at h
    case h_2 => cases h
    next hj =>
      obtain ⟨_, ⟨⟩, h⟩ := bind_eq_ok.mp h
      obtain ⟨params, hparams, ⟨⟩⟩ := bind_eq_ok.mp h
      refine ordered_hostEntries (List.forall_mem_singleton.mpr (Json.ordered_ofText hj)) hparams ?_
      split
      · exact List.forall_mem_nil _
      · exact List.forall_mem_singleton.mpr (.scalar trivial)
  case h_1 =>
    obtain ⟨_, ⟨⟩, h⟩ := bind_eq_ok.mp h
    obtain ⟨params, hparams, ⟨⟩⟩ := bind_eq_ok.mp h
    refine ordered_hostEntries (List.forall_mem_nil _) hparams ?_
    split
    · exact List.forall_mem_nil _
    · exact List.forall_mem_singleton.mpr (.scalar trivial)

/-- A run from the command line has its maps in order, in all contexts that it comes to. -/
theorem ordered_runList {s : Session} (htasks : s.tasks.Ordered) {engine : Engine}
    (hengine : s.engine = .ok engine) {o : RunOptions} {host : HostValues}
    (hhost : hostValues o = .ok host) (nodes : List Statement) :
    let sv := engine.services true
    let m := (Run.start host engine.memo engine.monitor).watched
    ((Run.runList sv (Run.callFunction sv Run.maxCallDepth) nodes).run m).2.Ordered := by
  have hgiven : engine.tasks = s.tasks ∧ engine.memo = .standard := by
    unfold Session.engine Engine.build at hengine
    dsimp only at hengine
    split at hengine <;> cases hengine
    exact ⟨rfl, rfl⟩
  have hservices : (engine.services true).tasks.Ordered := by
    rw [Engine.services, hgiven.1]
    exact htasks
  have hmemo : engine.memo.Sound := hgiven.2 ▸ Memo.sound_standard
  have hstart := Run.ordered_start (ordered_hostValues hhost) hmemo engine.monitor
  exact Run.ordered_runList hservices _ nodes
    (hstart _ (List.mem_cons_of_mem _ List.mem_cons_self))

end CommandLine

end PipelineScript
