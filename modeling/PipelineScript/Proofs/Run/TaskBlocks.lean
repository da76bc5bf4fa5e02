import Mathlib
import PipelineScript.Proofs.Run.Lockstep
import PipelineScript.Proofs.Statement.Binders
import PipelineScript.Proofs.Statement.Occurrences
import PipelineScript.Proofs.Table
import PipelineScript.Script
import PipelineScript.Task.Standard

/-! # Task blocks in any order

The outcomes of the tasks of a block come in as the tasks end. What they add up to does not depend
on the order, since the keys of a block that was read from a text are different and only values
leave something behind. Main statement: `taskBlock_order_irrelevant`. -/

namespace PipelineScript

open Statement (Occurs)

/-- The kinds of the statements that occur in a tree are those of its statements. -/
theorem Statement.Every.of_occurs {P : Kind → Prop} {nodes above : List Statement} {s : Statement}
    (h : ∀ s ∈ nodes, s.Every P) (hs : Occurs nodes above s) : s.Every P := by
  induction hs with
  | top hs => exact h _ hs
  | child _ hs ih => exact ih.children _ hs

/-- The entries of a task block that is read from a text have different keys. -/
theorem Statement.nodup_keys_of_ofSource {source target : String} {nodes above : List Statement}
    {s : Statement} {entries : List TaskEntry} (h : Statement.ofSource source = .ok nodes)
    (hs : Occurs nodes above s) (hk : s.kind = .taskBlock target entries) :
    (entries.map TaskEntry.key).Nodup := by
  have hkind := (Every.of_occurs (fun s hs => (printable_of_ofSource h s hs).every) hs).kind
  rw [hk] at hkind
  exact hkind.2.1

namespace Run

/-! ## Outcomes as they come in -/

/-- A value is kept under its key. A task that failed or broke down leaves nothing. -/
def collect (results : Table Value) : String × Outcome → Table Value
  | (key, .value v) => Table.insert results key v
  | (_, .failed _) => results
  | (_, .panicked _) => results

/-- The results of the outcomes that come in one after another. -/
def merge (arrivals : List (String × Outcome)) : Table Value := arrivals.foldl collect []

theorem collect_eq (results : Table Value) (key : String) (outcome : Outcome) :
    (match outcome with
      | .value v => Table.insert results key v
      | _ => results) = collect results (key, outcome) := by
  cases outcome <;> rfl

/-- What an outcome leaves behind. -/
def kept? : String × Outcome → Option (String × Value)
  | (key, .value v) => some (key, v)
  | (_, .failed _) | (_, .panicked _) => none

theorem merge_eq (arrivals : List (String × Outcome)) :
    merge arrivals = Table.ofEntries (arrivals.filterMap kept?) := by
  rw [merge, Table.ofEntries, List.foldl_filterMap]
  congr 1
  funext results arrival
  obtain ⟨key, outcome⟩ := arrival
  cases outcome <;> rfl

theorem ordered_merge (arrivals : List (String × Outcome)) : (merge arrivals).Ordered :=
  merge_eq arrivals ▸ .ofEntries _

theorem eq_of_kept? {arrival : String × Outcome} {entry : String × Value}
    (h : kept? arrival = some entry) : arrival = (entry.1, .value entry.2) := by
  obtain ⟨key, outcome⟩ := arrival
  cases outcome <;> cases h
  rfl

theorem mem_kept {arrivals : List (String × Outcome)} {key : String} {v : Value} :
    (key, v) ∈ arrivals.filterMap kept? ↔ (key, .value v) ∈ arrivals := by
  rw [List.mem_filterMap]
  constructor
  · rintro ⟨arrival, harrival, hkept⟩
    exact eq_of_kept? hkept ▸ harrival
  · exact fun harrival => ⟨_, harrival, rfl⟩

/-- Each outcome counts for its own key alone. -/
theorem get?_merge {arrivals : List (String × Outcome)} (h : (arrivals.map Prod.fst).Nodup)
    (key : String) (v : Value) :
    Table.get? (merge arrivals) key = some v ↔ (key, .value v) ∈ arrivals := by
  have hkeys : ((arrivals.filterMap kept?).map Prod.fst).Nodup := by
    rw [List.Nodup, List.pairwise_map] at h ⊢
    refine h.filterMap _ fun arrival later hne entry hentry entry' hentry' => ?_
    rwa [eq_of_kept? hentry, eq_of_kept? hentry'] at hne
  rw [merge_eq, Table.get?_ofEntries hkeys, ← mem_kept]
  exact ⟨Table.mem_of_get?, Table.get?_of_mem hkeys⟩

/-- The order in which outcomes come in makes no difference. -/
theorem merge_perm {arrivals arrivals' : List (String × Outcome)}
    (h : (arrivals.map Prod.fst).Nodup) (hp : arrivals'.Perm arrivals) :
    merge arrivals' = merge arrivals := by
  have h' : (arrivals'.map Prod.fst).Nodup := (hp.map Prod.fst).nodup_iff.mpr h
  refine (ordered_merge arrivals').ext (ordered_merge arrivals) fun key => ?_
  refine Option.ext fun v => ?_
  rw [get?_merge h', get?_merge h, hp.mem_iff]

/-! ## The arguments of a block -/

/-- The arguments of the entries, evaluated one after another. -/
def argumentsOf : List TaskEntry → Run (List (List Value))
  | [] => return []
  | entry :: rest => do
    let args ← evalAll entry.line entry.call.args
    return args :: (← argumentsOf rest)

/-- The step changes nothing but what the memo remembers. -/
def Reads {α : Type} (x : Run α) : Prop := ∀ m, ∃ memo, (x.run m).2 = { m with memo }

namespace Reads

variable {α β : Type}

theorem pure (a : α) : Reads (pure a) := fun m => ⟨m.memo, rfl⟩

theorem bind {x : Run α} {f : α → Run β} (hx : Reads x) (hf : ∀ a, Reads (f a)) :
    Reads (x >>= f) := by
  intro m
  obtain ⟨memo, hm⟩ := hx m
  rw [run_bind]
  rcases hr : x.run m with ⟨halt | a, m'⟩ <;> rw [hr] at hm <;> cases hm
  · exact ⟨memo, rfl⟩
  · obtain ⟨memo', hm'⟩ := hf a { m with memo }
    exact ⟨memo', hm'⟩

end Reads

theorem reads_eval (e : SourceExpr) (line : Nat) : Reads (eval e line) := by
  intro m
  refine ⟨(m.memo.evaluate e.source m.context.lookUp).2, ?_⟩
  unfold eval
  simp only [run_bind, run_get, run_set]
  rcases (m.memo.evaluate e.source m.context.lookUp).1 with fault | v <;> rfl

theorem reads_evalAll (line : Nat) (es : List SourceExpr) : Reads (evalAll line es) := by
  induction es with
  | nil => exact .pure []
  | cons e rest ih => exact (reads_eval e line).bind fun _ => ih.bind fun _ => .pure _

theorem reads_argumentsOf (entries : List TaskEntry) : Reads (argumentsOf entries) := by
  induction entries with
  | nil => exact .pure []
  | cons entry rest ih => exact (reads_evalAll _ _).bind fun _ => ih.bind fun _ => .pure _

/-! ## The jobs of a block -/

/-- The job of an entry with its arguments, if its task exists. -/
def jobOf? (sv : Services) (c : Context) (entry : TaskEntry × List Value) : Option Job :=
  (Table.get? sv.tasks (c.resolve entry.1.call.name)).map fun task =>
    ⟨entry.1.key, task, entry.2⟩

/-- All arguments are evaluated before there are any jobs. -/
theorem run_jobsOf (sv : Services) (entries : List TaskEntry) (m : Machine) :
    (jobsOf sv entries).run m = match (argumentsOf entries).run m with
      | (.ok args, m') => (.ok ((entries.zip args).filterMap (jobOf? sv m.context)), m')
      | (.error halt, m') => (.error halt, m') := by
  induction entries generalizing m with
  | nil => rfl
  | cons entry rest ih =>
    obtain ⟨memo, hm⟩ := reads_evalAll entry.line entry.call.args m
    rw [jobsOf, argumentsOf]
    simp only [run_bind, run_context, run_pure]
    rcases hr : (evalAll entry.line entry.call.args).run m with ⟨halt | args, m'⟩
    · rfl
    · rw [hr] at hm
      cases hm
      simp only [ih]
      rcases (argumentsOf rest).run { m with memo } with ⟨halt | more, m''⟩
      · rfl
      · simp only [List.zip_cons_cons, List.filterMap_cons, jobOf?]
        cases Table.get? sv.tasks (m.context.resolve entry.call.name) <;> rfl

/-- There are as many lists of arguments as entries. -/
theorem length_argumentsOf {entries : List TaskEntry} {m m' : Machine} {args : List (List Value)}
    (h : (argumentsOf entries).run m = (.ok args, m')) : args.length = entries.length := by
  induction entries generalizing m m' args with
  | nil => cases h; rfl
  | cons entry rest ih =>
    rw [argumentsOf, run_bind] at h
    rcases hfirst : (evalAll entry.line entry.call.args).run m with ⟨halt | values, m₁⟩ <;>
      simp only [hfirst, run_bind] at h
    · cases h
    · rcases hrest : (argumentsOf rest).run m₁ with ⟨halt | more, m₂⟩ <;>
        simp only [hrest] at h <;> cases h
      simp [ih hrest]

/-- The entries whose task exists. -/
def dispatched (sv : Services) (c : Context) (entries : List TaskEntry) : List TaskEntry :=
  entries.filter fun entry => Table.has sv.tasks (c.resolve entry.call.name)

theorem keys_jobs (sv : Services) (c : Context) {entries : List TaskEntry}
    {args : List (List Value)} (h : args.length = entries.length) :
    ((entries.zip args).filterMap (jobOf? sv c)).map Job.key =
      (dispatched sv c entries).map TaskEntry.key := by
  induction entries generalizing args with
  | nil => rfl
  | cons entry rest ih =>
    cases args with
    | nil => cases h
    | cons values args =>
      have hrest := ih (Nat.succ.inj h)
      rw [List.zip_cons_cons, List.filterMap_cons, dispatched, List.filter_cons]
      cases hfound : Table.get? sv.tasks (c.resolve entry.call.name) <;>
        simpa [jobOf?, Table.has, dispatched, hfound] using hrest

/-- Jobs that are shared out give what their outcomes add up to, each of them the answer of its task
at some site. -/
theorem share_eq (sv : Services) (pool : Pool) (clock : Nat) {jobs : List Job}
    (h : (jobs.map Job.key).Nodup) (busy : List Nat) (results : Table Value) :
    ∃ outcome : String → Outcome,
      (∀ job ∈ jobs, ∃ site, outcome job.key = (job.task site job.args).outcome) ∧
      (share sv pool clock busy jobs results).1 =
        (jobs.map fun job => (job.key, outcome job.key)).foldl collect results := by
  induction jobs generalizing busy results with
  | nil => exact ⟨fun _ => .failed "", List.forall_mem_nil _, rfl⟩
  | cons job rest ih =>
    obtain ⟨hfresh, hrest⟩ := List.nodup_cons.mp h
    let site := siteAt sv (clock + busy.getD (freest busy) 0)
      (some (pool.threadName (freest busy)))
    let reply := job.task site job.args
    obtain ⟨outcome, hsites, hshare⟩ := ih hrest
      (busy.set (freest busy) (busy.getD (freest busy) 0 + nanosOf reply.millis))
      (collect results (job.key, reply.outcome))
    have hother : ∀ j ∈ rest, Function.update outcome job.key reply.outcome j.key =
        outcome j.key := by
      intro j hj
      refine Function.update_of_ne ?_ _ _
      rintro he
      exact hfresh (he ▸ List.mem_map_of_mem hj)
    refine ⟨Function.update outcome job.key reply.outcome,
      List.forall_mem_cons.mpr ⟨⟨site, Function.update_self ..⟩, fun j hj => ?_⟩, ?_⟩
    · rw [hother j hj]; exact hsites j hj
    · have hmap : rest.map (fun j => (j.key, Function.update outcome job.key reply.outcome j.key)) =
          rest.map fun j => (j.key, outcome j.key) :=
        List.map_congr_left fun j hj => by rw [hother j hj]
      rw [List.map_cons, List.foldl_cons, Function.update_self, hmap, ← hshare, ← collect_eq]
      rfl

/-! ## Main statement -/

/-- The outcomes of the entries whose task exists, in the order of the entries. -/
def sent (sv : Services) (c : Context) (entries : List TaskEntry) (outcome : String → Outcome) :
    List (String × Outcome) :=
  (dispatched sv c entries).map fun entry => (entry.key, outcome entry.key)

theorem mem_sent {sv : Services} {c : Context} {entries : List TaskEntry}
    {outcome : String → Outcome} {key : String} {o : Outcome} :
    (key, o) ∈ sent sv c entries outcome ↔
      (∃ entry ∈ entries, entry.key = key ∧ Table.has sv.tasks (c.resolve entry.call.name)) ∧
        outcome key = o := by
  simp only [sent, dispatched, List.mem_map, List.mem_filter, Prod.mk.injEq]
  constructor
  · rintro ⟨entry, ⟨hentry, hhas⟩, rfl, rfl⟩
    exact ⟨⟨entry, hentry, rfl, hhas⟩, rfl⟩
  · rintro ⟨⟨entry, hentry, rfl, hhas⟩, rfl⟩
    exact ⟨entry, ⟨hentry, hhas⟩, rfl, rfl⟩

theorem nodup_sent (sv : Services) (c : Context) {entries : List TaskEntry}
    (h : (entries.map TaskEntry.key).Nodup) (outcome : String → Outcome) :
    ((sent sv c entries outcome).map Prod.fst).Nodup := by
  have hsub : ((dispatched sv c entries).map TaskEntry.key).Sublist (entries.map TaskEntry.key) :=
    List.filter_sublist.map _
  rw [sent, List.map_map]
  exact h.sublist hsub

/-- A block whose arguments have values gives what the outcomes of its tasks add up to. -/
theorem run_runBlock (sv : Services) {entries : List TaskEntry} {m m' : Machine}
    {args : List (List Value)} (hkeys : (entries.map TaskEntry.key).Nodup)
    (hargs : (argumentsOf entries).run m = (.ok args, m')) :
    ∃ outcome : String → Outcome,
      (∀ entry values, (entry, values) ∈ entries.zip args → ∀ task,
        Table.get? sv.tasks (m.context.resolve entry.call.name) = some task →
        ∃ site, outcome entry.key = (task site values).outcome) ∧
      ∃ clock, (runBlock sv entries).run m =
        (.ok (.map (merge (sent sv m.context entries outcome))), { m' with clock }) := by
  have hlength := length_argumentsOf hargs
  have hjobs : (jobsOf sv entries).run m =
      (.ok ((entries.zip args).filterMap (jobOf? sv m.context)), m') := by rw [run_jobsOf, hargs]
  have hjobKeys := keys_jobs sv m.context hlength
  generalize hlist : (entries.zip args).filterMap (jobOf? sv m.context) = jobs at hjobs hjobKeys
  have hnodup : (jobs.map Job.key).Nodup := by
    rw [hjobKeys]
    exact hkeys.sublist (List.filter_sublist.map _)
  -- the last job is taken up first
  have hreversed : (jobs.reverse.map Job.key).Nodup := by
    rw [List.map_reverse]
    exact List.nodup_reverse.mpr hnodup
  obtain ⟨outcome, hsites, hshare⟩ := share_eq sv (sv.pools.resolve m'.context.pool?) m'.clock
    hreversed (List.replicate (min (sv.pools.resolve m'.context.pool?).threads jobs.length) 0) []
  refine ⟨outcome, fun entry values hentry task htask => ?_, ?_⟩
  · refine hsites ⟨entry.key, task, values⟩ (List.mem_reverse.mpr ?_)
    rw [← hlist]
    exact List.mem_filterMap.mpr ⟨_, hentry, by simp [jobOf?, htask]⟩
  · have hsent : jobs.map (fun job => (job.key, outcome job.key)) =
        sent sv m.context entries outcome := by
      have := congrArg (List.map fun key => (key, outcome key)) hjobKeys
      simpa [sent, Function.comp_def] using this
    have hmerge : merge (jobs.reverse.map fun job => (job.key, outcome job.key)) =
        merge (sent sv m.context entries outcome) := by
      refine merge_perm (nodup_sent _ _ hkeys outcome) ?_
      rw [← hsent]
      exact (List.reverse_perm jobs).map _
    rw [runBlock_eq, run_bind, hjobs, ← hmerge, merge, ← hshare]
    exact ⟨_, rfl⟩

/-- A task block gives the same map in whatever order the outcomes of its tasks come in: the value
of each task under the key of its entry, and nothing for a task that does not exist, fails or breaks
down. If an argument cannot be evaluated, the block does the same with any tasks at all, and leaves
the context as it was. -/
theorem taskBlock_order_irrelevant {source : String} {script : Script}
    (hscript : Script.compile source = .ok script) {above : List Statement} {s : Statement}
    (hs : Occurs script.statements above s) {target : String} {entries : List TaskEntry}
    (hk : s.kind = .taskBlock target entries) (sv : Services)
    (call : Statement → List Value → Nat → Run Value) (m : Machine) :
    match (argumentsOf entries).run m with
    | (.error halt, m') =>
      (∀ sv' call', (runStatement sv' call' s).run m = (.error halt, m')) ∧
        m' = { m with memo := m'.memo }
    | (.ok args, _) =>
      (∃ outcome m',
        (∀ entry values, (entry, values) ∈ entries.zip args → ∀ task,
          Table.get? sv.tasks (m.context.resolve entry.call.name) = some task →
          ∃ site, outcome entry.key = (task site values).outcome) ∧
        (runStatement sv call s).run m = (.ok .normal, m') ∧
        m'.context =
          m.context.assign target (.map (merge (sent sv m.context entries outcome)))) ∧
      ∀ outcome arrivals, arrivals.Perm (sent sv m.context entries outcome) →
        merge arrivals = merge (sent sv m.context entries outcome) ∧ (merge arrivals).Ordered ∧
        (∀ key v, Table.get? (merge arrivals) key = some v ↔
          (∃ entry ∈ entries, entry.key = key ∧
            Table.has sv.tasks (m.context.resolve entry.call.name)) ∧ outcome key = .value v) ∧
        ∀ outcome' key, outcome' key = outcome key →
          Table.get? (merge (sent sv m.context entries outcome')) key =
            Table.get? (merge arrivals) key := by
  have hkeys : (entries.map TaskEntry.key).Nodup :=
    Statement.nodup_keys_of_ofSource (Script.compile_eq_ok_iff.mp hscript).1 hs hk
  obtain ⟨kind, shape, line, children⟩ := s
  cases hk
  have hrun (sv' : Services) (call' : Statement → List Value → Nat → Run Value) :
      runStatement sv' call' ⟨.taskBlock target entries, shape, line, children⟩ = (do
        let v ← runBlock sv' entries
        write ⟨.taskBlock target entries, shape, line, children⟩ fun c => c.assign target v
        return .normal) := by rw [runStatement]
  obtain ⟨memo, hmemo⟩ := reads_argumentsOf entries m
  rcases hargs : (argumentsOf entries).run m with ⟨halt | args, m'⟩ <;> rw [hargs] at hmemo <;>
    cases hmemo
  · refine ⟨fun sv' call' => ?_, rfl⟩
    rw [hrun, run_bind, runBlock_eq, run_bind, run_jobsOf, hargs]
  · refine ⟨?_, fun outcome arrivals hp => ?_⟩
    · obtain ⟨outcome, hsites, clock, hblock⟩ := run_runBlock sv hkeys hargs
      refine ⟨outcome, ?_⟩
      rw [hrun, run_bind, hblock]
      exact ⟨_, hsites, rfl, rfl⟩
    · have hmerge := merge_perm (nodup_sent _ _ hkeys outcome) hp
      have hget (outcome : String → Outcome) (key : String) (v : Value) :=
        get?_merge (nodup_sent sv m.context hkeys outcome) key v
      refine ⟨hmerge, ordered_merge arrivals, fun key v => ?_, fun outcome' key hsame => ?_⟩
      · rw [hmerge, hget, mem_sent]
      · refine Option.ext fun v => ?_
        rw [hmerge, hget, hget, mem_sent, mem_sent, hsame]

/-- Of a task that is known by another name, one that fails and one that does not exist, the first
alone leaves a value, whichever ends first. -/
theorem taskBlock_order_irrelevant_mixed :
    let entries : List TaskEntry :=
      [⟨"a", ⟨"clock", []⟩, 1⟩, ⟨"b", ⟨"fail", []⟩, 1⟩, ⟨"c", ⟨"nope", []⟩, 1⟩]
    let block : Statement := .ofLine (.taskBlock "r" entries) 1
    let source := "task r \x7b a: clock(), \"b\": fail(), c: nope() \x7d"
    let sv := { Services.bare 0 with tasks := Task.standard }
    let m := { start [] .standard none with
      context := (Context.ofHost []).addImport "clock" "now" }
    Script.compile source = .ok ⟨Digest.ofText source, [block]⟩ ∧ Occurs [block] [] block ∧
      (∃ v m', (runStatement sv (fun _ _ _ => return .null) block).run m = (.ok .normal, m') ∧
        m'.context = m.context.assign "r" (.map [("a", v)])) ∧
      ∀ v arrivals, arrivals.Perm [("a", Outcome.value v), ("b", .failed "no")] →
        merge arrivals = [("a", v)] := by
  intro entries block source sv m
  have hread : Statement.ofSource "task r \x7b a: clock(), \"b\": fail(), c: nope() \x7d" = .ok [
      .ofLine (.taskBlock "r" [⟨"a", ⟨"clock", []⟩, 1⟩, ⟨"b", ⟨"fail", []⟩, 1⟩,
        ⟨"c", ⟨"nope", []⟩, 1⟩]) 1] := by cbv
  have hscript : Script.compile source = .ok ⟨Digest.ofText source, [block]⟩ :=
    Script.compile_eq_ok_iff.mpr ⟨hread, rfl, rfl⟩
  have hs : Occurs [block] [] block := .top (List.mem_singleton_self _)
  have hargs : (argumentsOf entries).run m = (.ok [[], [], []], m) := rfl
  have hmain := taskBlock_order_irrelevant hscript hs rfl sv (fun _ _ _ => return .null) m
  rw [hargs] at hmain
  obtain ⟨⟨outcome, m', houtcome, hrun, hassign⟩, hmerge⟩ := hmain
  have hsent (outcome : String → Outcome) : sent sv m.context entries outcome =
      [("a", outcome "a"), ("b", outcome "b")] := rfl
  obtain ⟨site, ha⟩ := houtcome ⟨"a", ⟨"clock", []⟩, 1⟩ [] (.head _) Task.now rfl
  obtain ⟨site', hb⟩ := houtcome ⟨"b", ⟨"fail", []⟩, 1⟩ [] (.tail _ (.head _)) Task.fail rfl
  refine ⟨hscript, hs, ⟨.date site.now, m', hrun, ?_⟩, fun v arrivals hp => ?_⟩
  · rw [hassign, hsent, ha, hb]
    rfl
  · let outcome (key : String) : Outcome := if key = "a" then .value v else .failed "no"
    rw [(hmerge outcome arrivals hp).1]
    rfl

end Run

end PipelineScript
