import Mathlib
import PipelineScript.Proofs.Monitor.Recorders

/-! # What a monitor reports

A report has one line for each kind. The lines are sorted by two keys, the time that the kind took
in all and its name, and no two lines have the same name, so it does not matter in which order the
kinds are listed before. Main statement: `Monitor.reports_exactly`. -/

namespace PipelineScript

namespace TimingReport

instance : Std.TransCmp order :=
  inferInstanceAs (Std.TransCmp (compareLex (fun a b => compareOn total b a) (compareOn kind)))

variable {a b : TimingReport}

theorem order_eq_lt_iff :
    a.order b = .lt ↔ b.total < a.total ∨ a.total = b.total ∧ a.kind < b.kind := by
  rw [order, Ordering.then_eq_lt, Std.compare_eq_lt, Std.compare_eq_iff_eq, compare_lt_iff_lt,
    eq_comm (a := b.total)]

theorem kind_eq_of_order (h : a.order b = .eq) : a.kind = b.kind :=
  compare_eq_iff_eq.mp (Ordering.then_eq_eq.mp h).2

theorem order_isLE_total (a b : TimingReport) : (a.order b).isLE || (b.order a).isLE := by
  rw [Bool.or_eq_true]
  exact or_iff_not_imp_left.mpr fun h => Ordering.isLE_of_eq_lt (Std.OrientedCmp.lt_of_not_isLE h)

end TimingReport

namespace Monitor

section

variable {entries entries' : List (String × Timing)}

/-- Before they are sorted. -/
theorem lines_perm_map (entries : List (String × Timing)) :
    (lines entries).Perm (entries.map fun (kind, t) => TimingReport.ofTiming kind t) :=
  List.mergeSort_perm _ _

theorem nodup_lines (h : (entries.map Prod.fst).Nodup) :
    ((lines entries).map TimingReport.kind).Nodup := by
  refine ((lines_perm_map entries).map _).nodup_iff.mpr ?_
  rw [List.map_map]
  exact h

theorem pairwise_lines (h : (entries.map Prod.fst).Nodup) :
    (lines entries).Pairwise fun a b => a.order b = .lt := by
  have hsorted : (lines entries).Pairwise fun a b => (a.order b).isLE :=
    List.pairwise_mergeSort (fun _ _ _ => Std.TransCmp.isLE_trans) TimingReport.order_isLE_total _
  refine (hsorted.and (List.pairwise_map.mp (nodup_lines h))).imp fun hab => ?_
  obtain hlt | heq := Ordering.isLE_iff_eq_lt_or_eq_eq.mp hab.1
  · exact hlt
  · exact absurd (TimingReport.kind_eq_of_order heq) hab.2

/-- However the entries are listed, their lines come in the same order. -/
theorem lines_perm (h : (entries.map Prod.fst).Nodup) (hperm : entries.Perm entries') :
    lines entries = lines entries' := by
  refine List.Perm.eq_of_pairwise (fun a b _ _ hab hba => ?_) (pairwise_lines h)
    (pairwise_lines ((hperm.map _).nodup_iff.mp h)) ?_
  · exact absurd hba (Std.OrientedCmp.not_lt_of_lt hab)
  · exact (lines_perm_map entries).trans ((hperm.map _).trans (lines_perm_map entries').symm)

end

variable {m : Monitor}

theorem mem_report_iff (h : Table.Ordered m) (r : TimingReport) :
    r ∈ m.report ↔ m.report? r.kind = some r := by
  rw [report, (lines_perm_map m).mem_iff, List.mem_map, report?, Option.map_eq_some_iff]
  constructor
  · rintro ⟨⟨kind, t⟩, hentry, rfl⟩
    exact ⟨t, Table.get?_of_mem h.nodup_keys hentry, rfl⟩
  · rintro ⟨t, ht, hr⟩
    exact ⟨(r.kind, t), Table.mem_of_get? ht, hr⟩

/-! ## Requests -/

inductive Request where
  | record (s : Sample)
  | reset

def serve (m : Monitor) : Request → Monitor
  | .record s => m.record s.kind s.nanos
  | .reset => []

def serveAll (m : Monitor) (requests : List Request) : Monitor := requests.foldl serve m

/-- The samples that a monitor has been told of since, once it has dealt with one more request. -/
def Request.after (samples : List Sample) : Request → List Sample
  | .record s => samples ++ [s]
  | .reset => []

/-- The samples that have been recorded since the last reset. -/
def sinceReset (requests : List Request) : List Sample := requests.foldl Request.after []

theorem serveAll_eq (requests : List Request) :
    serveAll [] requests = recordAll [] (sinceReset requests) := by
  have hfrom : ∀ samples, (recordAll [] samples).serveAll requests =
      recordAll [] (requests.foldl Request.after samples) := by
    induction requests with
    | nil => exact fun _ => rfl
    | cons r rest ih =>
      intro samples
      cases r with
      | record s =>
        refine Eq.trans ?_ (ih (samples ++ [s]))
        exact congrArg (serveAll · rest) (recordAll_concat [] samples s).symm
      | reset => exact ih []
  exact hfrom []

/-- What the monitor has to say of the samples, in whatever order its entries are listed. -/
structure Reports (samples : List Sample) (m : Monitor) : Prop where
  missing : ∀ kind, m.report? kind = none ↔ ∀ s ∈ samples, s.kind ≠ kind
  summary : ∀ kind r, m.report? kind = some r →
    r.kind = kind ∧ r.Summarizes (timesOf kind samples)
  listed : ∀ entries, entries.Perm m → lines entries = m.report
  agrees : ∀ r, r ∈ m.report ↔ m.report? r.kind = some r
  kinds : ∀ kind, kind ∈ m.report.map TimingReport.kind ↔ ∃ s ∈ samples, s.kind = kind
  once : (m.report.map TimingReport.kind).Nodup
  sorted : m.report.Pairwise fun a b => b.total < a.total ∨ a.total = b.total ∧ a.kind < b.kind

theorem reports_recordAll {samples : List Sample} (hfew : samples.length < 2 ^ 64) :
    (recordAll [] samples).Reports samples := by
  have hordered := ordered_recordAll .nil samples
  have hreport (kind : String) : (recordAll [] samples).report? kind =
      if timesOf kind samples = [] then none
      else some (.ofTiming kind (.ofTimes (timesOf kind samples))) := by
    rw [report?, get?_recordAll]
    split
    · rfl
    · exact congrArg (fun t => some (TimingReport.ofTiming kind t)) (zero_add _)
  have hmissing (kind : String) : (recordAll [] samples).report? kind = none ↔
      ∀ s ∈ samples, s.kind ≠ kind := by
    rw [hreport, ← timesOf_eq_nil_iff]
    split <;> simp_all
  have hsummary (kind : String) (r : TimingReport)
      (hr : (recordAll [] samples).report? kind = some r) :
      r.kind = kind ∧ r.Summarizes (timesOf kind samples) := by
    rw [hreport] at hr
    split at hr
    · cases hr
    · cases hr
      exact ⟨rfl, TimingReport.summarizes_ofTimes kind ‹_›
        ((length_timesOf_le kind samples).trans_lt hfew) lt_of_mem_timesOf⟩
  refine ⟨hmissing, hsummary,
    fun entries h => (lines_perm hordered.nodup_keys h.symm).symm, mem_report_iff hordered,
    fun kind => ?_, nodup_lines hordered.nodup_keys,
    (pairwise_lines hordered.nodup_keys).imp TimingReport.order_eq_lt_iff.mp⟩
  have hfound : (∃ s ∈ samples, s.kind = kind) ↔ (recordAll [] samples).report? kind ≠ none := by
    rw [ne_eq, hmissing]
    push Not
    rfl
  rw [hfound, List.mem_map, Option.ne_none_iff_exists']
  constructor
  · rintro ⟨r, hr, rfl⟩
    exact ⟨r, (mem_report_iff hordered r).mp hr⟩
  · rintro ⟨r, hr⟩
    obtain rfl := (hsummary kind r hr).1
    exact ⟨r, (mem_report_iff hordered r).mpr hr, rfl⟩

/-- Whatever has been asked of a monitor, it reports the samples since the last reset, and neither
their order nor how their recorders took turns makes a difference to it. -/
theorem reports_exactly (requests : List Request)
    (hfew : (sinceReset requests).length < 2 ^ 64) :
    (serveAll [] requests).Reports (sinceReset requests) ∧
      (∀ samples, samples.Perm (sinceReset requests) →
        recordAll [] samples = serveAll [] requests) ∧
      ∀ turns, ((Recording.start (sinceReset requests)).run turns).Finished →
        ((Recording.start (sinceReset requests)).run turns).monitor = serveAll [] requests := by
  rw [serveAll_eq]
  exact ⟨reports_recordAll hfew, fun samples h => recordAll_perm h,
    fun turns h => Recording.monitor_run h⟩

/-- Two recorders of one kind get in each other's way: the second one has to read the least time
again, and reads the longest one before the first has written it. `Echo` takes longer than 64 bits
can say, so its shortest time is left out. -/
theorem reports_exactly_race :
    let requests : List Request := [.record ⟨"For", 7⟩, .reset, .record ⟨"For", 300⟩,
      .record ⟨"For", 100⟩, .record ⟨"Echo", 2 ^ 64 + 9⟩, .record ⟨"Assign", 400⟩]
    let turns : List Turn := (List.replicate 6 0 ++ List.replicate 3 Timing.longest).flatMap
      fun read => [0, 1, 2, 3].map fun recorder => ⟨recorder, false, read⟩
    let g := (Recording.start (sinceReset requests)).run turns
    (sinceReset requests).length < 2 ^ 64 ∧ g.Finished ∧
      g.monitor.Reports (sinceReset requests) ∧
      g.monitor.report? "For" = some ⟨"For", 2, 400, 200, 100, 300⟩ ∧
      g.monitor.report? "Echo" = some ⟨"Echo", 1, Timing.longest, Timing.longest, 0, Timing.longest⟩ ∧
      recordAll [] [⟨"Assign", 400⟩, ⟨"For", 100⟩, ⟨"For", 300⟩, ⟨"Echo", 2 ^ 64 + 9⟩] = g.monitor := by
  intro requests turns g
  have hfew : (sinceReset requests).length < 2 ^ 64 := by decide
  have hdone : g.Finished := by decide
  obtain ⟨hreports, hperm, hturns⟩ := reports_exactly requests hfew
  rw [hturns turns hdone]
  exact ⟨hfew, hdone, hreports, by decide, by decide, hperm _ (by decide)⟩

end Monitor

end PipelineScript
