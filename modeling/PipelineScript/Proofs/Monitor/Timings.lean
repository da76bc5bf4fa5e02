import Mathlib
import PipelineScript.Monitor
import PipelineScript.Proofs.Table

/-! # Timings add up

What is kept of the samples of a kind can be put together with what is kept of others: counts and
sums are added up in 64 bits, and the least and the longest time win. This is a commutative monoid,
and every sample is an element of it, so what is kept of many samples is a sum, whatever their
order. Main statements: `TimingReport.summarizes_ofTimes`, which says what a report of such a sum
tells of the samples, and `Monitor.get?_recordAll`, by which a monitor keeps this sum of every
kind. -/

namespace PipelineScript

namespace Timing

/-- What is kept of the samples of both. -/
def merge (t u : Timing) : Timing :=
  ⟨t.count + u.count, t.total + u.total, min t.least u.least, max t.most u.most⟩

instance : Zero Timing := ⟨Timing.none⟩

instance : Add Timing := ⟨merge⟩

@[simp] theorem count_zero : (0 : Timing).count = 0 := rfl
@[simp] theorem total_zero : (0 : Timing).total = 0 := rfl
@[simp] theorem least_zero : (0 : Timing).least = longest := rfl
@[simp] theorem most_zero : (0 : Timing).most = 0 := rfl

section

variable (t u : Timing)

@[simp] theorem count_add : (t + u).count = t.count + u.count := rfl
@[simp] theorem total_add : (t + u).total = t.total + u.total := rfl
@[simp] theorem least_add : (t + u).least = min t.least u.least := rfl
@[simp] theorem most_add : (t + u).most = max t.most u.most := rfl

end

theorem ext {t u : Timing} (hcount : t.count = u.count) (htotal : t.total = u.total)
    (hleast : t.least.toNat = u.least.toNat) (hmost : t.most.toNat = u.most.toNat) : t = u := by
  cases t
  cases u
  cases hcount
  cases htotal
  cases UInt64.toNat_inj.mp hleast
  cases UInt64.toNat_inj.mp hmost
  rfl

theorem toNat_longest : longest.toNat = 2 ^ 64 - 1 := rfl

theorem toNat_le_longest (w : UInt64) : w.toNat ≤ longest.toNat :=
  Nat.le_of_lt_succ w.toNat_lt

instance : AddCommMonoid Timing where
  add_assoc t u v := by
    refine ext ?_ ?_ ?_ ?_ <;>
      simp [add_assoc, UInt64.toNat_min, UInt64.toNat_max, min_assoc, max_assoc]
  zero_add t := by
    refine ext ?_ ?_ ?_ ?_ <;> simp [UInt64.toNat_min, UInt64.toNat_max, toNat_le_longest]
  add_zero t := by
    refine ext ?_ ?_ ?_ ?_ <;> simp [UInt64.toNat_min, UInt64.toNat_max, toNat_le_longest]
  add_comm t u := by
    refine ext ?_ ?_ ?_ ?_ <;>
      simp [add_comm, UInt64.toNat_min, UInt64.toNat_max, min_comm, max_comm]
  nsmul := nsmulRec

/-- What is kept of one sample. -/
def single (time : UInt64) : Timing := ⟨1, time, time, time⟩

theorem add_eq (t : Timing) (time : UInt64) : t.add time = t + single time := rfl

/-! ## Many samples -/

def ofTimes (times : List Nat) : Timing :=
  (times.map fun n => single (UInt64.ofNat n)).sum

@[simp] theorem ofTimes_nil : ofTimes [] = 0 := rfl

@[simp] theorem ofTimes_cons (n : Nat) (times : List Nat) :
    ofTimes (n :: times) = single (UInt64.ofNat n) + ofTimes times := by
  simp [ofTimes]

theorem ofTimes_perm {times times' : List Nat} (h : times.Perm times') :
    ofTimes times = ofTimes times' :=
  (h.map _).sum_eq

variable {times : List Nat}

theorem count_ofTimes (times : List Nat) :
    (ofTimes times).count.toNat = times.length % 2 ^ 64 := by
  induction times with
  | nil => rfl
  | cons n rest ih =>
    rw [ofTimes_cons, count_add, UInt64.toNat_add, ih, List.length_cons, Nat.add_mod_mod,
      Nat.add_comm]
    rfl

theorem total_ofTimes (times : List Nat) :
    (ofTimes times).total.toNat = times.sum % 2 ^ 64 := by
  induction times with
  | nil => rfl
  | cons n rest ih =>
    rw [ofTimes_cons, total_add, UInt64.toNat_add, ih, single, UInt64.toNat_ofNat', List.sum_cons,
      ← Nat.add_mod]

/-- Times that fit are what they were as words. -/
theorem toNat_ofNat_of_mem (h : ∀ n ∈ times, n < 2 ^ 64) {n : Nat} (hn : n ∈ times) :
    (UInt64.ofNat n).toNat = n :=
  UInt64.toNat_ofNat_of_lt' (h n hn)

theorem most_ofTimes (h : ∀ n ∈ times, n < 2 ^ 64) (hne : times ≠ []) :
    IsGreatest {n | n ∈ times} (ofTimes times).most.toNat := by
  induction times with
  | nil => exact absurd rfl hne
  | cons m rest ih =>
    have hm := toNat_ofNat_of_mem h List.mem_cons_self
    rw [ofTimes_cons, most_add, UInt64.toNat_max, single, hm]
    cases rest with
    | nil => simp
    | cons k more =>
      rw [List.setOfPred_mem_cons]
      exact (ih (List.forall_mem_cons.mp h).2 (List.cons_ne_nil k more)).insert m

theorem least_ofTimes (h : ∀ n ∈ times, n < 2 ^ 64) (hne : times ≠ []) :
    IsLeast {n | n ∈ times} (ofTimes times).least.toNat := by
  induction times with
  | nil => exact absurd rfl hne
  | cons m rest ih =>
    have hm := toNat_ofNat_of_mem h List.mem_cons_self
    rw [ofTimes_cons, least_add, UInt64.toNat_min, single, hm]
    cases rest with
    | nil =>
      have : m ≤ longest.toNat := Nat.le_of_lt_succ (h m List.mem_cons_self)
      simp [this]
    | cons k more =>
      rw [List.setOfPred_mem_cons]
      exact (ih (List.forall_mem_cons.mp h).2 (List.cons_ne_nil k more)).insert m

end Timing

namespace TimingReport

/-- The report is the one of these times. The shortest of them is left out if there is no shorter
time than the longest one that fits. -/
structure Summarizes (times : List Nat) (r : TimingReport) : Prop where
  count : r.count.toNat = times.length
  total : r.total.toNat = times.sum % 2 ^ 64
  average : r.average.toNat = r.total.toNat / r.count.toNat
  most : IsGreatest {n | n ∈ times} r.most.toNat
  least : if ∀ n ∈ times, n = 2 ^ 64 - 1 then r.least.toNat = 0
    else IsLeast {n | n ∈ times} r.least.toNat

theorem summarizes_ofTimes {times : List Nat} (kind : String) (hne : times ≠ [])
    (hfew : times.length < 2 ^ 64) (hfits : ∀ n ∈ times, n < 2 ^ 64) :
    Summarizes times (ofTiming kind (.ofTimes times)) := by
  have hcount : (Timing.ofTimes times).count.toNat = times.length := by
    rw [Timing.count_ofTimes, Nat.mod_eq_of_lt hfew]
  have hsome : (Timing.ofTimes times).count ≠ 0 := by
    intro hzero
    rw [hzero] at hcount
    exact hne (List.length_eq_zero_iff.mp hcount.symm)
  have hleast : (∀ n ∈ times, n = 2 ^ 64 - 1) ↔ (Timing.ofTimes times).least = Timing.longest := by
    rw [← UInt64.toNat_inj, Timing.toNat_longest]
    constructor
    · exact fun h => h _ (Timing.least_ofTimes hfits hne).1
    · intro h n hn
      have := (Timing.least_ofTimes hfits hne).2 hn
      have := hfits n hn
      omega
  refine ⟨hcount, Timing.total_ofTimes times, ?_, Timing.most_ofTimes hfits hne, ?_⟩
  · rw [ofTiming, if_neg hsome, UInt64.toNat_div]
  · split
    · rename_i hall
      rw [ofTiming, if_pos (hleast.mp hall)]
      rfl
    · rename_i hnot
      rw [ofTiming, if_neg (hleast.not.mp hnot)]
      exact Timing.least_ofTimes hfits hne

end TimingReport

/-! ## Samples -/

/-- That a statement of the kind took this many nanoseconds. -/
structure Sample where
  kind : String
  nanos : Nat
deriving DecidableEq, Repr

/-- The time that is kept: whatever takes longer than 64 bits can say takes as long as they can. -/
def Sample.time (s : Sample) : Nat := min s.nanos (2 ^ 64 - 1)

/-- The times of a kind. -/
def timesOf (kind : String) (samples : List Sample) : List Nat :=
  (samples.filter fun s => s.kind = kind).map Sample.time

theorem timesOf_cons (kind : String) (s : Sample) (samples : List Sample) :
    timesOf kind (s :: samples) =
      if s.kind = kind then s.time :: timesOf kind samples else timesOf kind samples := by
  by_cases h : s.kind = kind <;> simp [timesOf, h]

theorem timesOf_eq_nil_iff {kind : String} {samples : List Sample} :
    timesOf kind samples = [] ↔ ∀ s ∈ samples, s.kind ≠ kind := by
  simp [timesOf]

theorem timesOf_perm {samples samples' : List Sample} (h : samples.Perm samples') (kind : String) :
    (timesOf kind samples).Perm (timesOf kind samples') :=
  (h.filter _).map _

theorem lt_of_mem_timesOf {kind : String} {samples : List Sample} :
    ∀ n ∈ timesOf kind samples, n < 2 ^ 64 := by
  intro n hn
  obtain ⟨s, -, rfl⟩ := List.mem_map.mp hn
  exact (Nat.min_le_right _ _).trans_lt (by decide)

theorem length_timesOf_le (kind : String) (samples : List Sample) :
    (timesOf kind samples).length ≤ samples.length := by
  rw [timesOf, List.length_map]
  exact List.length_filter_le _ _

namespace Monitor

/-- What is kept of a kind, and of one without samples that there are none. -/
def timing (m : Monitor) (kind : String) : Timing := (Table.get? m kind).getD 0

theorem timing_of_get? {m : Monitor} {kind : String} {t : Timing} (h : Table.get? m kind = some t) :
    m.timing kind = t := by
  rw [timing, h]
  rfl

def recordAll (m : Monitor) (samples : List Sample) : Monitor :=
  samples.foldl (fun m s => m.record s.kind s.nanos) m

theorem record_eq (m : Monitor) (s : Sample) : m.record s.kind s.nanos =
    Table.insert m s.kind (m.timing s.kind + .single (UInt64.ofNat s.time)) := by
  rw [record, Timing.add_eq]
  rfl

theorem recordAll_concat (m : Monitor) (samples : List Sample) (s : Sample) :
    m.recordAll (samples ++ [s]) = (m.recordAll samples).record s.kind s.nanos :=
  List.foldl_concat ..

theorem ordered_recordAll {m : Monitor} (h : Table.Ordered m) (samples : List Sample) :
    Table.Ordered (m.recordAll samples) := by
  induction samples generalizing m with
  | nil => exact h
  | cons s rest ih => exact ih (h.insert _ _)

theorem get?_recordAll (m : Monitor) (samples : List Sample) (kind : String) :
    Table.get? (m.recordAll samples) kind =
      if timesOf kind samples = [] then Table.get? m kind
      else some (m.timing kind + .ofTimes (timesOf kind samples)) := by
  induction samples generalizing m with
  | nil => rfl
  | cons s rest ih =>
    show Table.get? ((m.record s.kind s.nanos).recordAll rest) kind = _
    have hget : Table.get? (m.record s.kind s.nanos) kind = if s.kind = kind
        then some (m.timing s.kind + .single (UInt64.ofNat s.time)) else Table.get? m kind := by
      rw [record_eq, Table.get?_insert]
    rw [ih, timesOf_cons]
    by_cases hk : s.kind = kind
    · subst hk
      rw [if_pos rfl] at hget ⊢
      rw [hget, timing_of_get? hget, if_neg (List.cons_ne_nil _ _), Timing.ofTimes_cons, add_assoc]
      split
      · rename_i hnone
        rw [hnone, Timing.ofTimes_nil, add_zero]
      · rfl
    · rw [if_neg hk] at hget ⊢
      rw [timing, hget]
      rfl

/-- What is kept does not depend on the order of the samples. -/
theorem recordAll_perm {samples samples' : List Sample} (h : samples.Perm samples') :
    recordAll [] samples = recordAll [] samples' := by
  refine (ordered_recordAll .nil samples).ext (ordered_recordAll .nil samples') fun kind => ?_
  have htimes := timesOf_perm h kind
  have hnil : timesOf kind samples = [] ↔ timesOf kind samples' = [] := by
    rw [← List.length_eq_zero_iff, ← List.length_eq_zero_iff, htimes.length_eq]
  rw [get?_recordAll, get?_recordAll, Timing.ofTimes_perm htimes]
  simp only [hnil]

end Monitor

end PipelineScript
