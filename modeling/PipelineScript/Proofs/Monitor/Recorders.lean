import Mathlib
import PipelineScript.Proofs.Monitor.Timings

/-! # Recorders side by side

Several threads record at once and share the words of a kind. Each of them counts, adds its time up,
and then tries to put it in the place of the least and of the longest one, until it has seen one
that is no worse. Nothing holds the words together in between, but what a recorder has put into them
and what it is still going to put there add up to its sample at every moment. Main statement: when
all recorders are done, the monitor is the one that the samples leave one after another
(`Recording.monitor_run`). -/

namespace PipelineScript

/-- Where a recorder is in its work. -/
inductive Stage where
  /-- Looks the kind up. -/
  | look
  /-- Adds the kind, unless it has been added since. -/
  | enter
  | count
  | total
  | readLeast
  /-- Knows of this least time and goes on to replace it. -/
  | lower (seen : UInt64)
  | readMost
  | raise (seen : UInt64)
  | done
deriving DecidableEq, Repr

/-- A thread that records one sample. -/
structure Recorder where
  kind : String
  time : UInt64
  stage : Stage
deriving DecidableEq, Repr

/-- A turn that one of the recorders gets. Words are not read in step with how they are written, so
it may read one that is out of date, and it may fail to replace one that nobody else has. -/
structure Turn where
  recorder : Nat
  fails : Bool
  read : UInt64

namespace Stage

variable (time : UInt64) (turn : Turn) (t : Timing)

/-- Least times only ever get smaller, so one that is out of date is larger than the one there. -/
def readsLeast : Timing × Stage := (t, lower (max t.least turn.read))

def readsMost : Timing × Stage := (t, raise (min t.most turn.read))

def lowers (seen : UInt64) : Timing × Stage :=
  if time < seen then
    if t.least = seen ∧ ¬ turn.fails then ({ t with least := time }, readMost)
    else readsLeast turn t
  else (t, readMost)

def raises (seen : UInt64) : Timing × Stage :=
  if seen < time then
    if t.most = seen ∧ ¬ turn.fails then ({ t with most := time }, done)
    else readsMost turn t
  else (t, done)

/-- What a turn does to the words of the kind, once it has been found, and where the recorder is
then. -/
def act : Stage → Timing × Stage
  | look => (t, look)
  | enter => (t, enter)
  | count => ({ t with count := t.count + 1 }, total)
  | total => ({ t with total := t.total + time }, readLeast)
  | readLeast => readsLeast turn t
  | lower seen => lowers time turn t seen
  | readMost => readsMost turn t
  | raise seen => raises time turn t seen
  | done => (t, done)

/-- What the recorder is still going to add. -/
def left : Stage → Timing
  | look | enter | count => .single time
  | total => { Timing.single time with count := 0 }
  | readLeast | lower _ => ⟨0, 0, time, time⟩
  | readMost | raise _ => ⟨0, 0, Timing.longest, time⟩
  | done => 0

/-- What the recorder knows is right or out of date. -/
def Sees : Stage → Prop
  | lower seen => t.least ≤ seen
  | raise seen => seen ≤ t.most
  | _ => True

/-- The kind has been found or added. -/
def Entered : Stage → Prop
  | look | enter => False
  | _ => True

/-- From one moment to a later one, what is put into the words is taken from what is left. -/
structure Advances (s : Stage) (next : Timing × Stage) : Prop where
  sees : next.2.Sees next.1
  least : next.1.least ≤ t.least
  most : t.most ≤ next.1.most
  settles : next.1 + next.2.left time = t + s.left time

variable {time turn t} {s : Stage}

theorem Sees.mono {t' : Timing} (h : s.Sees t) (hleast : t'.least ≤ t.least)
    (hmost : t.most ≤ t'.most) : s.Sees t' := by
  cases s with
  | lower seen => exact UInt64.le_trans hleast h
  | raise seen => exact UInt64.le_trans h hmost
  | _ => trivial

/-- Nothing is put into the words. -/
theorem advances_same {next : Stage} (hsees : next.Sees t)
    (h : t + next.left time = t + s.left time) : Advances time t s (t, next) :=
  ⟨hsees, UInt64.le_refl _, UInt64.le_refl _, h⟩

theorem advances_readsLeast (h : s.left time = readLeast.left time) :
    Advances time t s (readsLeast turn t) := by
  refine advances_same ?_ (congrArg (t + ·) h.symm)
  rw [Sees, UInt64.le_iff_toNat_le, UInt64.toNat_max]
  exact Nat.le_max_left _ _

theorem advances_readsMost (h : s.left time = readMost.left time) :
    Advances time t s (readsMost turn t) := by
  refine advances_same ?_ (congrArg (t + ·) h.symm)
  rw [Sees, UInt64.le_iff_toNat_le, UInt64.toNat_min]
  exact Nat.min_le_left _ _

theorem advances_lowers {seen : UInt64} (h : t.least ≤ seen) :
    Advances time t (lower seen) (lowers time turn t seen) := by
  have hknown := UInt64.le_iff_toNat_le.mp h
  unfold lowers
  split
  · rename_i hless
    split
    · rename_i hfound
      obtain ⟨rfl, -⟩ := hfound
      refine ⟨trivial, UInt64.le_of_lt hless, UInt64.le_refl _, Timing.ext rfl rfl ?_ rfl⟩
      have := UInt64.lt_iff_toNat_lt.mp hless
      simp only [left, Timing.least_add, UInt64.toNat_min, Timing.toNat_le_longest, inf_of_le_left,
        right_eq_inf]
      omega
    · exact advances_readsLeast rfl
  · rename_i hnot
    refine advances_same trivial (Timing.ext rfl rfl ?_ rfl)
    have := UInt64.le_iff_toNat_le.mp (UInt64.not_lt.mp hnot)
    simp only [left, Timing.least_add, UInt64.toNat_min, Timing.toNat_le_longest, inf_of_le_left,
      left_eq_inf]
    omega

theorem advances_raises {seen : UInt64} (h : seen ≤ t.most) :
    Advances time t (raise seen) (raises time turn t seen) := by
  have hknown := UInt64.le_iff_toNat_le.mp h
  unfold raises
  split
  · rename_i hless
    split
    · rename_i hfound
      obtain ⟨rfl, -⟩ := hfound
      refine ⟨trivial, UInt64.le_refl _, UInt64.le_of_lt hless, Timing.ext rfl rfl rfl ?_⟩
      have := UInt64.lt_iff_toNat_lt.mp hless
      simp only [left, add_zero, Timing.most_add, UInt64.toNat_max, right_eq_sup]
      omega
    · exact advances_readsMost rfl
  · rename_i hnot
    refine advances_same trivial (Timing.ext rfl rfl rfl ?_)
    have := UInt64.le_iff_toNat_le.mp (UInt64.not_lt.mp hnot)
    simp only [left, add_zero, Timing.most_add, UInt64.toNat_max, left_eq_sup]
    omega

theorem advances_act (h : s.Sees t) : Advances time t s (s.act time turn t) := by
  cases s with
  | count | total =>
    refine ⟨trivial, UInt64.le_refl _, UInt64.le_refl _, ?_⟩
    refine Timing.ext ?_ ?_ ?_ ?_ <;> simp [act, left, Timing.single]
  | readLeast => exact advances_readsLeast rfl
  | lower seen => exact advances_lowers h
  | readMost => exact advances_readsMost rfl
  | raise seen => exact advances_raises h
  | look | enter | done => exact advances_same trivial rfl

end Stage

/-! ## One recorder -/

/-- A monitor later on: no kind is gone, and times have only moved on. -/
structure Monitor.Grows (m m' : Monitor) : Prop where
  has : ∀ kind, Table.has m kind → Table.has m' kind
  least : ∀ kind, (m'.timing kind).least ≤ (m.timing kind).least
  most : ∀ kind, (m.timing kind).most ≤ (m'.timing kind).most

namespace Recorder

def act (turn : Turn) (m : Monitor) (r : Recorder) : Monitor × Recorder :=
  match r.stage with
  | .look => (m, { r with stage := if Table.has m r.kind then .count else .enter })
  | .enter =>
    (if Table.has m r.kind then m else Table.insert m r.kind .none, { r with stage := .count })
  | stage =>
    let (t, next) := stage.act r.time turn (m.timing r.kind)
    (Table.insert m r.kind t, { r with stage := next })

/-- What the recorder is still going to add to a kind. -/
def share (kind : String) (r : Recorder) : Timing :=
  if r.kind = kind then r.stage.left r.time else 0

/-- What the recorder knows of the monitor is right or out of date. -/
structure Sees (m : Monitor) (r : Recorder) : Prop where
  stage : r.stage.Sees (m.timing r.kind)
  entered : r.stage.Entered → Table.has m r.kind

theorem Sees.mono {m m' : Monitor} {r : Recorder} (h : r.Sees m) (hm : m.Grows m') : r.Sees m' :=
  ⟨h.stage.mono (hm.least _) (hm.most _), fun hr => hm.has _ (h.entered hr)⟩

/-- What a turn of the recorder does to the monitor. -/
structure Acts (m : Monitor) (r : Recorder) (next : Monitor × Recorder) : Prop where
  kind : next.2.kind = r.kind
  grows : m.Grows next.1
  others : ∀ kind ≠ r.kind, Table.get? next.1 kind = Table.get? m kind
  ordered : Table.Ordered m → Table.Ordered next.1
  sees : next.2.Sees next.1
  settles : ∀ kind, next.1.timing kind + next.2.share kind = m.timing kind + r.share kind

variable {m : Monitor} {r : Recorder}

/-- Writing the words of a kind does what it does to them. -/
theorem acts_insert {t : Timing} {next : Stage}
    (h : Stage.Advances r.time (m.timing r.kind) r.stage (t, next)) :
    Acts m r (Table.insert m r.kind t, { r with stage := next }) := by
  have hget (kind : String) : Table.get? (Table.insert m r.kind t) kind =
      if r.kind = kind then some t else Table.get? m kind := Table.get?_insert ..
  have hown : Monitor.timing (Table.insert m r.kind t) r.kind = t := by
    simp [Monitor.timing, hget]
  have hothers : ∀ kind ≠ r.kind, Table.get? (Table.insert m r.kind t) kind = Table.get? m kind :=
    fun kind hk => by rw [hget, if_neg (Ne.symm hk)]
  have hsame : ∀ kind ≠ r.kind,
      Monitor.timing (Table.insert m r.kind t) kind = m.timing kind := fun kind hk => by
    rw [Monitor.timing, hothers kind hk, Monitor.timing]
  have hhas : Table.has (Table.insert m r.kind t) r.kind := by simp [Table.has, hget]
  refine ⟨rfl, ⟨fun kind hk => ?_, fun kind => ?_, fun kind => ?_⟩, hothers,
    fun hm => hm.insert _ _, ⟨?_, fun _ => hhas⟩, fun kind => ?_⟩
  · rw [Table.has, hget]
    split
    · rfl
    · exact hk
  · by_cases hk : kind = r.kind
    · rw [hk, hown]
      exact h.least
    · rw [hsame kind hk]
      exact UInt64.le_refl _
  · by_cases hk : kind = r.kind
    · rw [hk, hown]
      exact h.most
    · rw [hsame kind hk]
      exact UInt64.le_refl _
  · rw [hown]
    exact h.sees
  · by_cases hk : kind = r.kind
    · subst hk
      rw [hown, share, if_pos rfl, share, if_pos rfl]
      exact h.settles
    · rw [hsame kind hk, share, if_neg (Ne.symm hk), share, if_neg (Ne.symm hk)]

/-- The monitor stays as it is. -/
theorem acts_same {next : Stage} (hentered : next.Entered → Table.has m r.kind)
    (hsees : next.Sees (m.timing r.kind)) (h : next.left r.time = r.stage.left r.time) :
    Acts m r (m, { r with stage := next }) :=
  ⟨rfl, ⟨fun _ hk => hk, fun _ => UInt64.le_refl _, fun _ => UInt64.le_refl _⟩, fun _ _ => rfl, id,
    ⟨hsees, hentered⟩, fun kind => by simp [share, h]⟩

theorem acts_act (turn : Turn) (h : r.Sees m) : Acts m r (r.act turn m) := by
  unfold act
  split
  · rename_i hstage
    by_cases hhas : Table.has m r.kind
    · rw [if_pos hhas]
      exact acts_same (fun _ => hhas) trivial (hstage ▸ rfl)
    · rw [if_neg hhas]
      exact acts_same nofun trivial (hstage ▸ rfl)
  · rename_i hstage
    by_cases hhas : Table.has m r.kind
    · rw [if_pos hhas]
      exact acts_same (fun _ => hhas) trivial (hstage ▸ rfl)
    · rw [if_neg hhas]
      have hmissing : m.timing r.kind = 0 := by
        rw [Monitor.timing, Option.not_isSome_iff_eq_none.mp hhas]
        rfl
      refine acts_insert ?_
      rw [hmissing]
      exact Stage.advances_same trivial (hstage ▸ rfl)
  · exact acts_insert (Stage.advances_act h.stage)

end Recorder

/-! ## All recorders -/

/-- A monitor and those who record. -/
structure Recording where
  monitor : Monitor
  recorders : List Recorder

namespace Recording

def start (samples : List Sample) : Recording :=
  ⟨[], samples.map fun s => ⟨s.kind, UInt64.ofNat s.time, .look⟩⟩

def step (g : Recording) (turn : Turn) : Recording :=
  match g.recorders[turn.recorder]? with
  | some r =>
    let (m, r) := r.act turn g.monitor
    ⟨m, g.recorders.set turn.recorder r⟩
  | none => g

/-- The turns one after another. -/
def run (g : Recording) (turns : List Turn) : Recording := turns.foldl step g

def Finished (g : Recording) : Prop := ∀ r ∈ g.recorders, r.stage = .done

instance (g : Recording) : Decidable g.Finished :=
  inferInstanceAs (Decidable (∀ r ∈ g.recorders, r.stage = .done))

/-- What has been kept and what is left are the samples. -/
structure Accounts (samples : List Sample) (g : Recording) : Prop where
  ordered : Table.Ordered g.monitor
  kinds : g.recorders.map Recorder.kind = samples.map Sample.kind
  known : ∀ kind, Table.has g.monitor kind → kind ∈ samples.map Sample.kind
  sees : ∀ r ∈ g.recorders, r.Sees g.monitor
  settles : ∀ kind, g.monitor.timing kind + (g.recorders.map (Recorder.share kind)).sum =
    .ofTimes (timesOf kind samples)

variable {samples : List Sample} {g : Recording}

theorem accounts_start (samples : List Sample) : (start samples).Accounts samples := by
  refine ⟨.nil, by simp [start], nofun, ?_, fun kind => ?_⟩
  · refine List.forall_mem_map.mpr fun s _ => ⟨trivial, nofun⟩
  · show (0 : Timing) + _ = _
    rw [zero_add]
    induction samples with
    | nil => rfl
    | cons s rest ih =>
      rw [timesOf_cons, start, List.map_cons, List.map_cons, List.sum_cons]
      rw [start] at ih
      rw [ih, Recorder.share]
      split
      · rw [Timing.ofTimes_cons]
        rfl
      · exact zero_add _

theorem Accounts.step (h : g.Accounts samples) (turn : Turn) : (g.step turn).Accounts samples := by
  unfold Recording.step
  split
  case h_2 => exact h
  next r hr =>
  obtain ⟨hlt, hget⟩ := List.getElem?_eq_some_iff.mp hr
  have hmem : r ∈ g.recorders := List.mem_of_getElem? hr
  have hacts := Recorder.acts_act turn (h.sees r hmem)
  generalize r.act turn g.monitor = next at hacts ⊢
  refine ⟨hacts.ordered h.ordered, ?_, fun kind hk => ?_, fun r' hr' => ?_, fun kind => ?_⟩
  · have hlt : turn.recorder < (g.recorders.map Recorder.kind).length := by simpa
    have hsame : (g.recorders.map Recorder.kind)[turn.recorder] = r.kind := by
      rw [List.getElem_map, hget]
    rw [List.map_set, hacts.kind, ← hsame, List.set_getElem_self, h.kinds]
  · by_cases hown : kind = r.kind
    · rw [← h.kinds, hown]
      exact List.mem_map_of_mem hmem
    · rw [Table.has, hacts.others kind hown] at hk
      exact h.known kind hk
  · obtain hr' | rfl := List.mem_or_eq_of_mem_set hr'
    · exact (h.sees r' hr').mono hacts.grows
    · exact hacts.sees
  · have hbefore := ((List.getElem_cons_eraseIdx_perm hlt).map (Recorder.share kind)).sum_eq
    have hafter := ((List.set_perm_cons_eraseIdx hlt next.2).map (Recorder.share kind)).sum_eq
    rw [List.map_cons, List.sum_cons, hget] at hbefore
    rw [List.map_cons, List.sum_cons] at hafter
    rw [hafter, ← add_assoc, hacts.settles, add_assoc, hbefore, h.settles]

theorem Accounts.run (h : g.Accounts samples) (turns : List Turn) :
    (g.run turns).Accounts samples := by
  induction turns generalizing g with
  | nil => exact h
  | cons turn rest ih => exact ih (h.step turn)

/-- Nothing is left to be added. -/
theorem Accounts.monitor_eq (h : g.Accounts samples) (hdone : g.Finished) :
    g.monitor = Monitor.recordAll [] samples := by
  refine h.ordered.ext (Monitor.ordered_recordAll .nil samples) fun kind => ?_
  have hkept : g.monitor.timing kind = .ofTimes (timesOf kind samples) := by
    have hnone : (g.recorders.map (Recorder.share kind)).sum = 0 := by
      refine List.sum_eq_zero fun t ht => ?_
      obtain ⟨r, hr, rfl⟩ := List.mem_map.mp ht
      rw [Recorder.share, hdone r hr]
      split <;> rfl
    rw [← h.settles, hnone, add_zero]
  have hhas : Table.has g.monitor kind ↔ timesOf kind samples ≠ [] := by
    rw [ne_eq, timesOf_eq_nil_iff]
    constructor
    · intro hk hall
      obtain ⟨s, hs, hkind⟩ := List.mem_map.mp (h.known kind hk)
      exact hall s hs hkind
    · intro hsome
      push Not at hsome
      obtain ⟨s, hs, rfl⟩ := hsome
      have hin : s.kind ∈ g.recorders.map Recorder.kind := h.kinds ▸ List.mem_map_of_mem hs
      obtain ⟨r, hr, hkind⟩ := List.mem_map.mp hin
      refine hkind ▸ (h.sees r hr).entered ?_
      rw [hdone r hr]
      trivial
  rw [Monitor.get?_recordAll]
  split
  · rename_i hnil
    exact Option.not_isSome_iff_eq_none.mp fun hk => hhas.mp hk hnil
  · rename_i hne
    obtain ⟨t, ht⟩ := Option.isSome_iff_exists.mp (hhas.mpr hne)
    rw [ht, ← Monitor.timing_of_get? ht, hkept]
    exact congrArg some (zero_add _).symm

/-- However the recorders take turns: when all of them are done, the monitor is the one that the
samples leave one after another. -/
theorem monitor_run {turns : List Turn} (h : ((start samples).run turns).Finished) :
    ((start samples).run turns).monitor = Monitor.recordAll [] samples :=
  ((accounts_start samples).run turns).monitor_eq h

end Recording

end PipelineScript
