import PipelineScript.Proofs.Context.Agreement
import PipelineScript.Proofs.Context.Functions
import PipelineScript.Proofs.Evaluation.Trees
import PipelineScript.Proofs.Run.Lockstep
import PipelineScript.Proofs.Statement.Names

/-! # Runs that cannot be told apart

Two runs of the same statements whose contexts agree on all names that the statements mention. The
runs may remember different expressions and keep different timings. They may even take place at
different times, if nothing depends on that: there is no limit of time, and no task asks for it.
Main statement: they give the same result and echo the same (`script_alike`). -/

namespace PipelineScript

/-- Tasks that come to the same end whenever they run, and on whatever thread. -/
def Tasks.Timeless (tasks : Tasks) : Prop :=
  ∀ name task, Table.get? tasks name = some task → ∀ site site' args,
    site'.environment = site.environment → (task site' args).outcome = (task site args).outcome

namespace Services

/-- Time makes no difference to runs that are given these. -/
structure Untimed (sv sv' : Services) : Prop where
  limit : sv.limitMillis = none
  limit' : sv'.limitMillis = none
  timeless : sv.tasks.Timeless

/-- What the runs are given is the same, or differs in when it is given and in the pools. -/
structure Alike (sv sv' : Services) : Prop where
  tasks : sv'.tasks = sv.tasks
  environment : sv'.environment = sv.environment
  loopTurns : sv'.loopTurns = sv.loopTurns
  echoes : sv'.echoes = sv.echoes
  time : sv' = sv ∨ sv.Untimed sv'

end Services

/-- The statements below have the property too. -/
def Statement.Mentions (P : String → Prop) (s : Statement) : Prop := s.Every (Kind.Mentions P)

/-- The machines of two runs that cannot be told apart by statements which mention such names. -/
structure Machine.Alike (P : String → Prop) (sv sv' : Services) (m m' : Machine) : Prop where
  context : m.context.Agree P m'.context
  known : m.context.Knows (Statement.Mentions P)
  memo : m.memo.Sound
  memo' : m'.memo.Sound
  echoed : m'.echoed = m.echoed
  clock : sv' = sv ∧ m'.clock = m.clock ∨ sv.Untimed sv'

namespace Run

/-- The pairing of two runs that read and write such names only. -/
def agreeing (P : String → Prop) (sv sv' : Services) : Pairing Unit where
  reads e := ∀ tree, Expression.ofSource e.source = .ok tree → ∀ name ∈ tree.freeNames, P name
  fits _ := Statement.Mentions P
  halts h h' := h' = h
  holds _ _ _ := Machine.Alike P sv sv'

variable {P : String → Prop} {sv sv' : Services} {m m' : Machine}

/-! ## Changes of both machines -/

theorem agreeing_moveTo {c c' : Context} (hm : m.Alike P sv sv' m')
    (hc : c.Agree P c') (hk : c.Knows (Statement.Mentions P)) :
    (m.moveTo c).Alike P sv sv' (m'.moveTo c') := ⟨hc, hk, hm.memo, hm.memo', hm.echoed, hm.clock⟩

theorem agreeing_write {c c' : Context} {s s' : Statement} (hm : m.Alike P sv sv' m')
    (hc : c.Agree P c') (hk : c.Knows (Statement.Mentions P)) :
    (m.write s c).Alike P sv sv' (m'.write s' c') :=
  ⟨hc, hk, hm.memo, hm.memo', hm.echoed, hm.clock⟩

/-! ## Expressions and tasks -/

/-- An expression has the same value in contexts that agree on its variables. -/
theorem agreeing_eval {e : SourceExpr} (he : (agreeing P sv sv').reads e) (n line : Nat) :
    (agreeing P sv sv').Together n () (eval e line) (eval e line) fun _ => True := by
  intro m m' hm
  have hvalue : (m'.memo.evaluate e.source m'.context.lookUp).1 =
      (m.memo.evaluate e.source m.context.lookUp).1 := by
    rw [hm.memo.evaluate_eq, hm.memo'.evaluate_eq]
    cases htree : Expression.ofSource e.source with
    | error fault => rfl
    | ok tree =>
      exact Expression.eval_congr tree fun name hname =>
        hm.context.lookUp (he tree htree name hname)
  have hmemo := hm.memo.evaluate e.source m.context.lookUp
  have hmemo' := hm.memo'.evaluate e.source m'.context.lookUp
  unfold eval
  simp only [run_bind, run_get, run_set, hvalue]
  split
  · exact .ok trivial ⟨hm.context, hm.known, hmemo, hmemo', hm.echoed, hm.clock⟩
  · exact .error rfl ⟨hm.context, hm.known, hmemo, hmemo', hm.echoed, hm.clock⟩

/-- Where time makes no difference, the clocks do not have to agree. -/
theorem agreeing_clock {t u : Nat} (hm : m.Alike P sv sv' m')
    (ht : sv' = sv → m'.clock = m.clock → u = t) :
    Machine.Alike P sv sv' { m with clock := t } { m' with clock := u } :=
  ⟨hm.context, hm.known, hm.memo, hm.memo', hm.echoed,
    hm.clock.imp_left fun ⟨hsv, hclock⟩ => ⟨hsv, ht hsv hclock⟩⟩

/-- A look at the clock takes its time, and does nothing else. -/
theorem machine_checkDeadline (limitMillis : Option Nat) (line : Nat) (m : Machine) :
    ((checkDeadline limitMillis line).run m).2 = { m with clock := m.clock + tick } := by
  unfold checkDeadline
  simp only [run_bind, run_get, run_modify]
  cases limitMillis with
  | none => rfl
  | some limit => dsimp only; split <;> rfl

theorem agreeing_deadline (n line : Nat) :
    (agreeing P sv sv').Together n () (checkDeadline sv.limitMillis line)
      (checkDeadline sv'.limitMillis line) fun _ => True := by
  intro m m' hm
  have hticked := agreeing_clock (t := m.clock + tick) (u := m'.clock + tick) hm
    fun _ hclock => by rw [hclock]
  refine .of_fst_eq ?_ (fun _ _ => rfl) (fun _ _ => trivial) ?_
  · unfold checkDeadline
    obtain ⟨rfl, hclock⟩ | huntimed := hm.clock
    · simp only [run_bind, run_get, run_modify, hclock]
      cases sv'.limitMillis with
      | none => rfl
      | some limit => dsimp only; split <;> rfl
    · rw [huntimed.limit, huntimed.limit']
      rfl
  · rw [machine_checkDeadline, machine_checkDeadline]
    exact hticked

/-- A task that is found comes to the same end in both runs. -/
theorem outcome_alike (hsv : sv.Alike sv') (hclock : sv' = sv ∧ m'.clock = m.clock ∨ sv.Untimed sv')
    {name : String} {task : Task} (htask : Table.get? sv.tasks name = some task)
    (args : List Value) :
    (task (siteAt sv' m'.clock none) args).outcome =
      (task (siteAt sv m.clock none) args).outcome := by
  obtain ⟨rfl, hclock⟩ | huntimed := hclock
  · rw [hclock]
  · exact huntimed.timeless name task htask _ _ args hsv.environment

theorem agreeing_perform (hsv : sv.Alike sv') {name : String} {task : Task}
    (htask : Table.get? sv.tasks name = some task) (n line : Nat) (args : List Value) :
    (agreeing P sv sv').Together n () (perform sv line name task args)
      (perform sv' line name task args) fun _ => True := by
  intro m m' hm
  have hmoved := agreeing_clock hm
    (t := m.clock + nanosOf (task (siteAt sv m.clock none) args).millis)
    (u := m'.clock + nanosOf (task (siteAt sv' m'.clock none) args).millis)
    (by rintro rfl hclock; rw [hclock])
  unfold perform
  simp only [run_bind, run_get, run_modify, outcome_alike hsv hm.clock htask args]
  split
  · exact .ok trivial hmoved
  · exact .error rfl hmoved
  · exact .error rfl hmoved

/-- Jobs are taken up in the order in which they were given, whenever threads are free for them. -/
theorem share_timeless (henv : sv'.environment = sv.environment) (htimeless : sv.tasks.Timeless)
    {jobs : List Job} (hjobs : ∀ job ∈ jobs, ∃ name, Table.get? sv.tasks name = some job.task)
    (pool pool' : Pool) (clock clock' : Nat) (busy busy' : List Nat) (results : Table Value) :
    (share sv' pool' clock' busy' jobs results).1 = (share sv pool clock busy jobs results).1 := by
  induction jobs generalizing busy busy' results with
  | nil => rfl
  | cons job rest ih =>
    obtain ⟨⟨name, htask⟩, hrest⟩ := List.forall_mem_cons.mp hjobs
    unfold share
    dsimp only
    rw [htimeless name job.task htask (siteAt sv _ _) (siteAt sv' _ _) job.args henv]
    exact ih hrest _ _ _

theorem agreeing_workOff (hsv : sv.Alike sv') (hpool : P Context.poolName) {jobs : List Job}
    (hjobs : ∀ job ∈ jobs, ∃ name, Table.get? sv.tasks name = some job.task) (n : Nat) :
    (agreeing P sv sv').Together n () (workOff sv jobs) (workOff sv' jobs) fun _ => True := by
  intro m m' hm
  refine .of_fst_eq ?_ (fun _ _ => rfl) (fun _ _ => trivial) (agreeing_clock hm ?_)
  · have hreversed : ∀ job ∈ jobs.reverse, ∃ name, Table.get? sv.tasks name = some job.task :=
      fun job hjob => hjobs job (List.mem_reverse.mp hjob)
    refine congrArg (fun results => Except.ok (Value.map results)) ?_
    obtain ⟨rfl, hclock⟩ | huntimed := hm.clock
    · rw [hm.context.pool? hpool, hclock]
    · exact share_timeless hsv.environment huntimed.timeless hreversed _ _ _ _ _ _ _
  · rintro rfl hclock
    rw [hm.context.pool? hpool, hclock]

/-! ## The pairing is kept -/

theorem agreeing_kept (hsv : sv.Alike sv') (hpool : P Context.poolName) :
    (agreeing P sv sv').Kept sv sv' where
  loopTurns := hsv.loopTurns
  tasks := hsv.tasks
  shapes := {
    own := fun hs he => hs.kind.reads _ he
    armOwn := fun hs _ ha he => (hs.children _ ha).kind.reads _ he
    arm := fun hs _ ha ht => (hs.children _ ha).children _ ht
    body := fun hs _ ht => hs.children _ ht }
  flows := .trivial (fun _ _ => trivial) fun _ => trivial
  values := .trivial fun _ => trivial
  stop := id
  fault _ _ _ := rfl
  rangeBound _ _ _ := rfl
  stray _ _ _ := rfl
  exhausted _ _ := rfl
  deadline n _ line := agreeing_deadline n line
  eval n _ line he := agreeing_eval he n line
  perform n _ line htask _ := agreeing_perform hsv htask n line _
  workOff n _ hjobs := agreeing_workOff hsv hpool (fun job hjob => (hjobs job hjob).1) n
  echo n _ line message m m' hm := by
    rw [hsv.echoes]
    cases sv.echoes with
    | false => exact .ok trivial hm
    | true =>
      have hechoed : (line, message) :: m'.echoed = (line, message) :: m.echoed := by rw [hm.echoed]
      exact .ok trivial ⟨hm.context, hm.known, hm.memo, hm.memo', hechoed, hm.clock⟩
  function name hm := ⟨(hm.context.function? name).trans (View.map_statement_plain _).symm,
    fun f hf => ⟨trivial, fun _ _ _ => (hm.known.of_function? hf).children, fun _ _ => rfl⟩⟩
  resolve name hm := hm.context.resolve name
  declaredType {_ _ _ _ s name value} hs hk hm := by
    rw [hm.context.binding? (hs.kind.writes name (by simp [hk, Kind.targets]))]
  loopDepth hm := hm.context.loopDepth
  importPath {_ _ m m' s path localName} _ _ hm :=
    agreeing_write hm ((hm.context.addImport localName path).declare localName _ none)
      (Context.Knows.declare (c := m.context.addImport localName path) hm.known _ _ _)
  declare _ _ _ _ hm := agreeing_write hm.holds (hm.holds.context.declare _ _ _)
    (hm.holds.known.declare _ _ _)
  assign {_ _ _ _ _ name _ v _ _} hs hk _ _ hm :=
    have hname := hs.kind.writes name (by simp [hk, Kind.targets])
    agreeing_write hm.holds (hm.holds.context.assign hname v) (hm.holds.known.assign name v)
  taskBlock {_ _ _ _ _ target _ t} hs hk _ hm :=
    have hname := hs.kind.writes target (by simp [hk, Kind.targets])
    agreeing_write hm.holds (hm.holds.context.assign hname (.map t))
      (hm.holds.known.assign target _)
  exportValue _ _ _ hm := agreeing_write hm.holds (hm.holds.context.setExport _)
    (hm.holds.known.setExport _)
  ended _ _ hm := hm
  hoist {_ _ _ _ nodes} hn hm := by
    rw [(agreeing P sv sv').statements_of_plain rfl]
    exact agreeing_moveTo hm (hm.context.hoist _) (hm.known.hoist fun s hs _ _ _ => hn s hs)
  push hm := agreeing_moveTo hm (hm.context.push .block) (hm.known.push .block)
  pop hm hw := agreeing_moveTo hw (hm.context.depth ▸ hw.context.popTo _) (hw.known.popTo _)
  enterLoop hm := agreeing_moveTo hm hm.context.enterLoop hm.known
  exitLoop _ hw := agreeing_moveTo hw hw.context.exitLoop hw.known
  item _ _ _ hm := agreeing_moveTo hm (hm.context.declare _ _ none) (hm.known.declare _ _ _)
  enterCall _ _ _ hm := by
    have hopened := agreeing_moveTo (agreeing_moveTo hm hm.context.enterFunction hm.known)
      (hm.context.enterFunction.push .function) (Context.Knows.push hm.known .function)
    exact agreeing_moveTo hopened (hopened.context.bindParams _ _)
      (hopened.known.bindParams _ _)
  leaveCall {_ _ _ m m' w w'} hm hw := by
    have hleft := agreeing_moveTo hw (hw.context.popTo m.context.depth) (hw.known.popTo _)
    have hout := agreeing_moveTo hleft (hleft.context.exitFunction m.context.loopDepth) hleft.known
    show Machine.Alike P sv sv' _ (Machine.leaveCall m' w')
    unfold Machine.leaveCall
    rw [hm.context.depth, hm.context.loopDepth]
    exact hout
  ran _ _ _ hw := ⟨hw.context, hw.known, hw.memo, hw.memo', hw.echoed, hw.clock⟩
  called _ hm := ⟨hm.context, hm.known, hm.memo, hm.memo', hm.echoed, hm.clock⟩

/-! ## Main statement -/

/-- Statements that mention only names on which the contexts agree, and the values of which the
system asks for, come to the same end in both runs and echo the same on their way. -/
theorem script_alike (hsv : sv.Alike sv') (hpool : P Context.poolName)
    (hexport : P Context.exportName) {nodes : List Statement}
    (hnodes : ∀ s ∈ nodes, s.Mentions P) (hm : m.Alike P sv sv' m') :
    ((script sv' nodes).run m').1 = ((script sv nodes).run m).1 ∧
      ((script sv' nodes).run m').2.echoed = ((script sv nodes).run m).2.echoed ∧
      ((script sv nodes).run m).2.memo.Sound ∧ ((script sv' nodes).run m').2.memo.Sound := by
  have hmeet := (agreeing_kept hsv hpool).together_runList (k := ()) maxCallDepth hnodes m m' hm
  rw [(agreeing P sv sv').statements_of_plain rfl] at hmeet
  rw [run_script, run_script]
  generalize (runList sv (callFunction sv maxCallDepth) nodes).run m = r at hmeet
  generalize (runList sv' (callFunction sv' maxCallDepth) nodes).run m' = r' at hmeet
  cases hmeet with
  | ok _ hw =>
    exact ⟨congrArg Except.ok (hw.context.takeExport hexport), hw.echoed, hw.memo, hw.memo'⟩
  | error hh hw => exact ⟨congrArg Except.error hh, hw.echoed, hw.memo, hw.memo'⟩

end Run

end PipelineScript
