import PipelineScript.Proofs.Evaluation.Trees
import PipelineScript.Run

/-! # Quiet steps

How the steps of a run are taken from a machine, one equation for each way of putting steps
together, and the steps that leave the context alone: they read it, move the clock or remember an
expression. A quiet step neither stops for an arm in the wrong place nor for a name of a function
that stands for something else. -/

namespace PipelineScript

namespace Machine

/-- A function is entered: a frame, a scope, and the parameters with their values. -/
def enterCall (m : Machine) (params : List String) (args : List Value) : Machine :=
  let m := m.moveTo m.context.enterFunction
  let m := m.moveTo (m.context.push .function)
  m.moveTo (Run.bindParams params args m.context)

/-- The function that was entered from `m` is left by `m'`. -/
def leaveCall (m m' : Machine) : Machine :=
  let m' := m'.moveTo (m'.context.popTo m.context.depth)
  m'.moveTo (m'.context.exitFunction m.context.loopDepth)

/-- A statement that began on the machine `began` has come to its end: its time is recorded, and the
event is told. -/
def conclude (m : Machine) (s : Statement) (began : Machine) (outcome : Except Halt Flow) :
    Machine :=
  note { m with monitor := m.monitor.map fun t => t.record s.kindName (m.clock - began.clock) }
    (.ran s began.context outcome)

end Machine

/-- The least that a run can be given: no tasks, one thread, no limit of time. -/
def Services.bare (loopTurns : Nat) : Services :=
  ⟨[], ⟨1, []⟩, [], ⟨0, 0⟩, none, loopTurns, false⟩

namespace Run

variable {α β : Type}

/-! ## One step after another -/

@[simp] theorem run_pure (a : α) (m : Machine) : (pure a : Run α).run m = (.ok a, m) := rfl

@[simp] theorem run_throw (h : Halt) (m : Machine) :
    (throw h : Run α).run m = (.error h, m) := rfl

@[simp] theorem run_fail (line : Nat) (cause : RunFault) (m : Machine) :
    (fail line cause : Run α).run m = (.error (.fault line cause), m) := rfl

/-- A step and what is made of its result; a halt goes past the rest. -/
theorem run_bind (x : Run α) (f : α → Run β) (m : Machine) :
    (x >>= f).run m = match x.run m with
      | (.ok a, m') => (f a).run m'
      | (.error h, m') => (.error h, m') := by
  show (x.run >>= ExceptT.bindCont f : StateM Machine (Except Halt β)) m = _
  simp only [bind, StateT.bind]
  rcases x.run m with ⟨_ | a, m'⟩ <;> rfl

@[simp] theorem run_context (m : Machine) : context.run m = (.ok m.context, m) := rfl

@[simp] theorem run_get (m : Machine) : (get : Run Machine).run m = (.ok m, m) := rfl

@[simp] theorem run_set (m m' : Machine) : (set m' : Run PUnit).run m = (.ok ⟨⟩, m') := rfl

@[simp] theorem run_modify (f : Machine → Machine) (m : Machine) :
    (modify f : Run PUnit).run m = (.ok ⟨⟩, f m) := rfl

@[simp] theorem run_modifyContext (f : Context → Context) (m : Machine) :
    (modifyContext f).run m = (.ok (), m.moveTo (f m.context)) := rfl

@[simp] theorem run_write (s : Statement) (f : Context → Context) (m : Machine) :
    (write s f).run m = (.ok (), m.write s (f m.context)) := rfl

theorem run_within (enter : Context → Context) (leave : Context → Context → Context)
    (body : Run α) (m : Machine) :
    (within enter leave body).run m =
      ((body.run (m.moveTo (enter m.context))).1,
        (body.run (m.moveTo (enter m.context))).2.moveTo
          (leave m.context (body.run (m.moveTo (enter m.context))).2.context)) := rfl

theorem run_observed (s : Statement) (body : Run Flow) (m : Machine) :
    (observed s body).run m = ((body.run m).1, (body.run m).2.conclude s m (body.run m).1) := rfl

theorem run_inCall (f : Statement) (params : List String) (args : List Value) (body : Run Flow)
    (m : Machine) :
    (inCall f params args body).run m =
      ((body.run (m.enterCall params args)).1,
        m.leaveCall ((body.run (m.enterCall params args)).2.note
          (.called f (body.run (m.enterCall params args)).1))) := rfl

/-- A script that comes to its end gives up its export. -/
theorem run_script (sv : Services) (nodes : List Statement) (m : Machine) :
    (script sv nodes).run m = match (runList sv (callFunction sv maxCallDepth) nodes).run m with
      | (.ok _, m') => (.ok m'.context.takeExport.1, m'.moveTo m'.context.takeExport.2)
      | (.error h, m') => (.error h, m') := by
  rw [script, run_bind]
  rcases (runList sv (callFunction sv maxCallDepth) nodes).run m with ⟨_ | flow, m'⟩ <;> rfl

@[simp] theorem moveTo_context (m : Machine) (c : Context) : (m.moveTo c).context = c := rfl

@[simp] theorem write_context (m : Machine) (s : Statement) (c : Context) :
    (m.write s c).context = c := rfl

@[simp] theorem note_context (m : Machine) (e : Event) : (m.note e).context = m.context := rfl

/-! ## Tasks that are ready to run -/

/-- What is left of a task that runs on the spot when it is found and has its arguments. -/
def perform (sv : Services) (line : Nat) (name : String) (task : Task) (args : List Value) :
    Run Value := do
  let reply := task (siteAt sv (← get).clock none) args
  modify fun m => { m with clock := m.clock + nanosOf reply.millis }
  match reply.outcome with
  | .value v => return v
  | .failed message => fail line (.taskFailed name message)
  | .panicked message => throw (.panic message)

theorem runTask_eq (sv : Services) (call : Invocation) (line : Nat) :
    runTask sv call line = (do
      let args ← evalAll line call.args
      let name := (← context).resolve call.name
      match Table.get? sv.tasks name with
      | none => fail line (.unknownTask name)
      | some task => perform sv line name task args) := rfl

/-- What is left of a block of tasks when it has its jobs. -/
def workOff (sv : Services) (jobs : List Job) : Run Value := do
  let m ← get
  let pool := sv.pools.resolve m.context.pool?
  let busy := List.replicate (min pool.threads jobs.length) 0
  let (results, time) := share sv pool m.clock busy jobs.reverse []
  set { m with clock := m.clock + time }
  return .map results

theorem runBlock_eq (sv : Services) (entries : List TaskEntry) :
    runBlock sv entries = jobsOf sv entries >>= workOff sv := rfl

/-- A block gives a map. -/
theorem map_of_workOff {sv : Services} {jobs : List Job} {m m' : Machine} {v : Value}
    (h : (workOff sv jobs).run m = (.ok v, m')) : ∃ t, v = .map t := by
  cases h
  exact ⟨_, rfl⟩

end Run

/-! ## Halts that a checked script is spared -/

/-- A run stops because of a tree that no text gives: an arm outside of its statement, or a name of
a function that stands for a statement of another kind. -/
def Halt.IsStray : Halt → Prop
  | .fault _ (.strayArm _) | .fault _ (.notFunction _) => True
  | _ => False

/-! ## Quiet steps -/

/-- The second machine is the first one later on, and nothing has been done to its context since. -/
structure Machine.Rests (m m' : Machine) : Prop where
  context : m'.context = m.context
  events : m'.events = m.events
  memo : m.memo.Sound → m'.memo.Sound

theorem Machine.Rests.refl (m : Machine) : m.Rests m := ⟨rfl, rfl, id⟩

theorem Machine.Rests.trans {m m' m'' : Machine} (h : m.Rests m') (h' : m'.Rests m'') :
    m.Rests m'' :=
  ⟨h'.context.trans h.context, h'.events.trans h.events, h'.memo ∘ h.memo⟩

namespace Run

variable {α β : Type}

/-- The step changes neither the context nor the events and does not stop for a stray statement. -/
def Quiet (x : Run α) : Prop :=
  ∀ m, m.Rests (x.run m).2 ∧ ∀ h, (x.run m).1 = .error h → ¬ h.IsStray

namespace Quiet

theorem pure (a : α) : Quiet (pure a) := fun m => ⟨.refl m, by rintro _ ⟨⟩⟩

theorem throw {h : Halt} (hs : ¬ h.IsStray) : Quiet (throw h : Run α) :=
  fun m => ⟨.refl m, by rintro _ ⟨⟩; exact hs⟩

theorem bind {x : Run α} {f : α → Run β} (hx : Quiet x) (hf : ∀ a, Quiet (f a)) :
    Quiet (x >>= f) := by
  intro m
  obtain ⟨hm, hh⟩ := hx m
  rw [run_bind]
  rcases hr : x.run m with ⟨h | a, m'⟩ <;> rw [hr] at hm hh
  · exact ⟨hm, by rintro _ ⟨⟩; exact hh h rfl⟩
  · exact ⟨hm.trans (hf a m').1, (hf a m').2⟩

theorem get : Quiet (MonadState.get : Run Machine) := fun m => ⟨.refl m, by rintro _ ⟨⟩⟩

theorem modify {f : Machine → Machine} (h : ∀ m : Machine, m.Rests (f m)) :
    Quiet (modify f : Run PUnit) :=
  fun m => ⟨h m, by rintro _ ⟨⟩⟩

end Quiet

theorem quiet_eval (e : SourceExpr) (line : Nat) : Quiet (eval e line) := by
  intro m
  have hmemo (h : m.memo.Sound) := h.evaluate e.source m.context.lookUp
  unfold eval
  simp only [run_bind, run_get, run_set]
  rcases (m.memo.evaluate e.source m.context.lookUp).1 with fault | v
  · exact ⟨⟨rfl, rfl, hmemo⟩, by rintro _ ⟨⟩; exact id⟩
  · exact ⟨⟨rfl, rfl, hmemo⟩, by rintro _ ⟨⟩⟩

theorem quiet_checkDeadline (limitMillis : Option Nat) (line : Nat) :
    Quiet (checkDeadline limitMillis line) := by
  refine .bind (.modify fun _ => ⟨rfl, rfl, id⟩) fun _ => Quiet.get.bind fun m => ?_
  cases limitMillis with
  | none => exact .pure _
  | some limit =>
    dsimp only
    split
    · exact .throw id
    · exact .pure _

theorem quiet_echo (listening : Bool) (line : Nat) (message : String) :
    Quiet (echo listening line message) := by
  cases listening
  · exact .pure _
  · exact Quiet.modify fun _ => ⟨rfl, rfl, id⟩

theorem quiet_rangeBound (e : SourceExpr) (line : Nat) : Quiet (rangeBound e line) := by
  refine (quiet_eval e line).bind fun v => ?_
  split
  · exact .pure _
  · exact .throw id

theorem quiet_perform (sv : Services) (line : Nat) (name : String) (task : Task)
    (args : List Value) : Quiet (perform sv line name task args) := by
  refine Quiet.get.bind fun m => .bind (.modify fun _ => ⟨rfl, rfl, id⟩) fun _ => ?_
  split
  · exact .pure _
  · exact .throw id
  · exact .throw id

theorem quiet_workOff (sv : Services) (jobs : List Job) : Quiet (workOff sv jobs) :=
  fun _ => ⟨⟨rfl, rfl, id⟩, by rintro _ ⟨⟩⟩

/-- The value of an expression is that of its text in the context as it is. -/
theorem valueOf_of_eval {e : SourceExpr} {line : Nat} {m m' : Machine} {v : Value}
    (hmemo : m.memo.Sound) (h : (eval e line).run m = (.ok v, m')) :
    Expression.valueOf e.source m.context.lookUp = .ok v := by
  unfold eval at h
  simp only [run_bind, run_get, run_set] at h
  rw [Expression.valueOf, ← hmemo.evaluate_eq]
  rcases hv : (m.memo.evaluate e.source m.context.lookUp).1 with fault | w <;> rw [hv] at h
  · cases h
  · cases h
    rfl

end Run

end PipelineScript
