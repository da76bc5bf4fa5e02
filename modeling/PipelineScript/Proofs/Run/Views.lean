import PipelineScript.Proofs.Evaluation.Trees
import PipelineScript.Proofs.Run.Lockstep

/-! # Running a tree and a view of it

A view that leaves the trees of the expressions alone leaves the run alone, lines and texts apart:
the second run goes in step with the first one. Main statement: `script_view`. The two runs echo the
same messages, and end with the same export or for reasons of the same kind. -/

namespace PipelineScript

/-- What a halt is told by, apart from lines and texts. -/
inductive HaltKind where
  | fault (kind : FaultKind)
  | timeout (elapsedMillis limitMillis : Nat)
  | panic (message : String)
  | exhausted
deriving DecidableEq

def Halt.kind : Halt → HaltKind
  | .fault _ cause => .fault cause.kind
  | .timeout _ elapsed limit => .timeout elapsed limit
  | .panic message => .panic message
  | .exhausted => .exhausted

namespace View

/-- The view keeps the tree of every expression. -/
def KeepsTrees (v : View) : Prop := ∀ e, (v.expr e).tree? = e.tree?

end View

namespace Machine

/-- The messages echoed so far, the latest first. -/
def messages (m : Machine) : List String := m.echoed.map Prod.snd

/-- The second machine is the first one with its functions seen through the view. What both
remember, echo as lines and tell may differ. -/
structure Shows (v : View) (m m' : Machine) : Prop where
  context : m'.context = v.context m.context
  clock : m'.clock = m.clock
  messages : m'.messages = m.messages
  memo : m.memo.Sound
  memo' : m'.memo.Sound

end Machine

namespace Run

variable {v : View}

/-- The pairing of the run of a tree with that of a view of it. -/
def viewing (v : View) : Pairing Unit where
  view := v
  halts h h' := h'.kind = h.kind
  holds _ _ _ m m' := m.Shows v m'

/-- The context alone is changed, and alike in both runs. -/
theorem shows_change {m m' : Machine} (hm : m.Shows v m') {c c' : Context} (hc : c' = v.context c)
    (e e' : Event) : Machine.Shows v ({ m with context := c }.note e)
      ({ m' with context := c' }.note e') :=
  ⟨hc, hm.clock, hm.messages, hm.memo, hm.memo'⟩

theorem viewing_eval (hv : v.KeepsTrees) (n : Nat) (e : SourceExpr) (line line' : Nat) :
    (viewing v).Together n () (eval e line) (eval (v.expr e) line') fun _ => True := by
  intro m m' hm
  unfold eval
  simp only [run_bind, run_get, run_set]
  have hvars : m'.context.lookUp = m.context.lookUp := by
    rw [hm.context, View.lookUp_context_eq]
  have hvalue := hm.memo.evaluate_alike hm.memo' (hv e) m.context.lookUp
  have hsound := hm.memo.evaluate e.source m.context.lookUp
  have hsound' := hm.memo'.evaluate (v.expr e).source m.context.lookUp
  rw [hvars]
  generalize m.memo.evaluate e.source m.context.lookUp = r at hvalue hsound
  generalize m'.memo.evaluate (v.expr e).source m.context.lookUp = r' at hvalue hsound'
  obtain ⟨fault | x, memo⟩ := r <;> obtain ⟨fault' | x', memo'⟩ := r'
  · exact .error (congrArg HaltKind.fault (Except.error.inj hvalue))
      ⟨hm.context, hm.clock, hm.messages, hsound, hsound'⟩
  · cases hvalue
  · cases hvalue
  · cases hvalue
    exact .ok trivial ⟨hm.context, hm.clock, hm.messages, hsound, hsound'⟩

theorem viewing_deadline (n : Nat) (limitMillis : Option Nat) (line line' : Nat) :
    (viewing v).Together n () (checkDeadline limitMillis line) (checkDeadline limitMillis line')
      fun _ => True := by
  intro m m' hm
  unfold checkDeadline
  simp only [run_bind, run_get, run_modify, hm.clock]
  have hn : Machine.Shows v { m with clock := m.clock + tick }
      { m' with clock := m.clock + tick } :=
    ⟨hm.context, rfl, hm.messages, hm.memo, hm.memo'⟩
  cases limitMillis with
  | none => exact .ok trivial hn
  | some limit =>
    by_cases h : limit * 1000000 < m.clock + tick
    · simp only [h, if_true]
      exact .error rfl hn
    · simp only [h, if_false]
      exact .ok trivial hn

theorem viewing_echo (n : Nat) (listening : Bool) (line line' : Nat) (message : String) :
    (viewing v).Together n () (echo listening line message) (echo listening line' message)
      fun _ => True := by
  cases listening with
  | false => exact .pure trivial
  | true =>
    exact fun m m' hm => .ok trivial
      ⟨hm.context, hm.clock, congrArg (message :: ·) hm.messages, hm.memo, hm.memo'⟩

theorem viewing_perform (n : Nat) (sv : Services) (line line' : Nat) (name : String) (task : Task)
    (args : List Value) : (viewing v).Together n () (perform sv line name task args)
      (perform sv line' name task args) fun _ => True := by
  intro m m' hm
  unfold perform
  simp only [run_bind, run_get, run_modify, hm.clock]
  have hn (n : Nat) : Machine.Shows v { m with clock := n } { m' with clock := n } :=
    ⟨hm.context, rfl, hm.messages, hm.memo, hm.memo'⟩
  split
  · exact .ok trivial (hn _)
  · exact .error rfl (hn _)
  · exact .error rfl (hn _)

theorem viewing_workOff (n : Nat) (sv : Services) (jobs : List Job) :
    (viewing v).Together n () (workOff sv jobs) (workOff sv jobs) fun _ => True := by
  intro m m' hm
  unfold workOff
  simp only [run_bind, run_get, run_set, run_pure, hm.clock, hm.context, View.pool?_context]
  exact .ok trivial ⟨rfl, rfl, hm.messages, hm.memo, hm.memo'⟩

theorem viewing_kept (hv : v.KeepsTrees) (sv : Services) : (viewing v).Kept sv sv where
  loopTurns := rfl
  tasks := rfl
  shapes := .trivial (fun _ => trivial) fun _ _ => trivial
  flows := .trivial (fun _ _ => trivial) fun _ => trivial
  values := .trivial fun _ => trivial
  stop := id
  fault _ _ _ := rfl
  rangeBound _ _ _ := rfl
  stray _ _ _ := rfl
  exhausted _ _ := rfl
  deadline n _ _ := viewing_deadline n _ _ _
  eval n _ _ _ := viewing_eval hv n _ _ _
  perform n _ _ _ _ := viewing_perform n _ _ _ _ _ _
  workOff n _ _ := viewing_workOff n _ _
  echo n _ _ _ := viewing_echo n _ _ _ _
  function name hm := by
    rw [hm.context, View.function?_context]
    exact ⟨rfl, fun _ _ => ⟨trivial, fun _ _ _ _ _ => trivial, fun _ _ => rfl⟩⟩
  resolve _ hm := by rw [hm.context, View.resolve_context]
  declaredType _ _ hm := by rw [hm.context, View.binding?_context]
  loopDepth hm := by rw [hm.context, View.loopDepth_context]
  importPath _ _ hm := shows_change hm
    (by rw [hm.context, View.declare_context, View.addImport_context]) _ _
  declare _ _ _ _ hm := shows_change hm.holds
    (by rw [hm.holds.context, View.declare_context]) _ _
  assign _ _ _ _ hm := shows_change hm.holds (by rw [hm.holds.context, View.assign_context]) _ _
  taskBlock _ _ _ hm := shows_change hm.holds (by rw [hm.holds.context, View.assign_context]) _ _
  exportValue _ _ _ hm := shows_change hm.holds
    (by rw [hm.holds.context, View.setExport_context]) _ _
  ended _ _ hm := hm
  hoist _ hm := shows_change hm (by rw [hm.context, View.hoist_context]; rfl) _ _
  push hm := shows_change hm (by rw [hm.context, View.push_context]) _ _
  pop hm hw := shows_change hw
    (by rw [hw.context, hm.context, View.popTo_context, View.depth_context]) _ _
  enterLoop hm := shows_change hm (by rw [hm.context]; rfl) _ _
  exitLoop _ hw := shows_change hw (by rw [hw.context]; rfl) _ _
  item _ _ _ hm := shows_change hm (by rw [hm.context, View.declare_context]) _ _
  enterCall {_ _ m m' _ _ params args} _ _ _ hm := by
    refine ⟨?_, hm.clock, hm.messages, hm.memo, hm.memo'⟩
    show bindParams params args (m'.context.enterFunction.push .function) =
      v.context (bindParams params args (m.context.enterFunction.push .function))
    rw [hm.context, View.bindParams_context]
    rfl
  leaveCall {_ _ _ m m' w w'} hm hw := by
    refine ⟨?_, hw.clock, hw.messages, hw.memo, hw.memo'⟩
    show (w'.context.popTo m'.context.depth).exitFunction m'.context.loopDepth =
      v.context ((w.context.popTo m.context.depth).exitFunction m.context.loopDepth)
    rw [hw.context, hm.context, View.depth_context, ← View.popTo_context]
    rfl
  ran _ _ _ hw := ⟨hw.context, hw.clock, hw.messages, hw.memo, hw.memo'⟩
  called _ hm := ⟨hm.context, hm.clock, hm.messages, hm.memo, hm.memo'⟩

/-- A script and its view do the same. -/
theorem script_view (hv : v.KeepsTrees) (sv : Services) (nodes : List Statement) {m m' : Machine}
    (hm : m.Shows v m') :
    ((script sv (v.statements nodes)).run m').1.mapError Halt.kind =
        ((script sv nodes).run m).1.mapError Halt.kind ∧
      ((script sv nodes).run m).2.Shows v ((script sv (v.statements nodes)).run m').2 := by
  have hmeet := (viewing_kept hv sv).together_runList (k := ()) maxCallDepth
    (fun s (_ : s ∈ nodes) => trivial) m m' hm
  rw [show (viewing v).view = v from rfl] at hmeet
  rw [run_script, run_script]
  generalize (runList sv (callFunction sv maxCallDepth) nodes).run m = r at hmeet
  generalize (runList sv (callFunction sv maxCallDepth) (v.statements nodes)).run m' = r' at hmeet
  cases hmeet with
  | ok _ hw =>
    dsimp only
    rw [hw.context, View.takeExport_context]
    exact ⟨rfl, shows_change hw rfl _ _⟩
  | error hh hw => exact ⟨congrArg Except.error hh, hw⟩

end Run

end PipelineScript
