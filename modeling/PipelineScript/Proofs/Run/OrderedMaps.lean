import Mathlib
import PipelineScript.Proofs.Context.Bindings
import PipelineScript.Proofs.Evaluation.OrderedMaps
import PipelineScript.Proofs.Run.SystemNames

/-! # The order of maps at every point of a run

No step of a run disturbs the order of a map. What a statement stores, returns or exports is the
value of an expression, the result of a task or that of a task block. Main statement:
`ordered_runList`. From the start of a run on, as far as the host and its tasks give maps with
ascending keys, the keys of all maps in sight ascend. -/

namespace PipelineScript

/-- From values with ordered maps the tasks make values with ordered maps. -/
def Tasks.Ordered (tasks : Tasks) : Prop :=
  ∀ name task, Table.get? tasks name = some task → ∀ site args, (∀ a ∈ args, a.Ordered) →
    ∀ v, (task site args).outcome = .value v → v.Ordered

/-- The keys of all maps in sight ascend. -/
def Context.Ordered (c : Context) : Prop := c.AllBound fun b => b.value.Ordered

theorem Context.Ordered.lookUp {c : Context} (h : c.Ordered) (name : String) (v : Value)
    (hv : c.lookUp name = some v) : v.Ordered := by
  obtain ⟨b, hb, rfl⟩ := Option.map_eq_some_iff.mp hv
  exact h.of_binding? hb

/-- The keys of all maps ascend, in the context and in those that the events tell of. -/
structure Machine.Ordered (m : Machine) : Prop where
  memo : m.memo.Sound
  context : m.context.Ordered
  events : ∀ es, m.events = some es → ∀ e ∈ es, ∀ c ∈ e.contexts, c.Ordered

namespace Machine.Ordered

variable {m : Machine}

theorem note (h : m.Ordered) {e : Event} (he : ∀ c ∈ e.contexts, c.Ordered) :
    (m.note e).Ordered where
  memo := h.memo
  context := h.context
  events es hes := by
    obtain ⟨older, holder, rfl⟩ := Option.map_eq_some_iff.mp hes
    exact List.forall_mem_cons.mpr ⟨he, h.events older holder⟩

theorem moveTo (h : m.Ordered) {c : Context} (hc : c.Ordered) : (m.moveTo c).Ordered :=
  note (m := { m with context := c }) ⟨h.memo, hc, h.events⟩ (List.forall_mem_singleton.mpr hc)

theorem write (h : m.Ordered) (s : Statement) {c : Context} (hc : c.Ordered) :
    (m.write s c).Ordered :=
  note (m := { m with context := c }) ⟨h.memo, hc, h.events⟩
    (List.forall_mem_cons.mpr ⟨h.context, List.forall_mem_singleton.mpr hc⟩)

theorem rests (h : m.Ordered) {m' : Machine} (hr : m.Rests m') : m'.Ordered :=
  ⟨hr.memo h.memo, hr.context ▸ h.context, hr.events ▸ h.events⟩

theorem conclude (h : m.Ordered) (s : Statement) {began : Machine} (hbegan : began.context.Ordered)
    (outcome : Except Halt Flow) : (m.conclude s began outcome).Ordered := by
  have hrecorded : Machine.Ordered { m with
      monitor := m.monitor.map fun t => t.record s.kindName (m.clock - began.clock) } :=
    h.rests ⟨rfl, rfl, id⟩
  exact hrecorded.note (List.forall_mem_singleton.mpr hbegan)

end Machine.Ordered

/-- A value that is returned has ordered maps. -/
def Flow.Ordered : Flow → Prop
  | .returned v => v.Ordered
  | _ => True

theorem Value.hereditary_ordered : Hereditary Ordered where
  null := .scalar trivial
  int _ := .scalar trivial
  items {v items} hv hitems := by
    cases v <;> cases hitems
    case null.refl => exact List.forall_mem_nil _
    case str.refl s =>
      intro v hv
      obtain ⟨c, -, rfl⟩ := List.mem_map.mp hv
      exact .scalar trivial
    case list.refl vs => exact hv.items
    case map.refl entries =>
      intro v hv
      obtain ⟨key, -, rfl⟩ := List.mem_map.mp hv
      exact .scalar trivial

namespace Run

/-- The discipline of maps in order. -/
def arranging : Discipline Unit where
  value := Value.Ordered
  allows _ := Flow.Ordered
  holds _ _ := Machine.Ordered

/-! ## Where values come from -/

theorem ordered_of_eval {e : SourceExpr} {line : Nat} {m m' : Machine} {v : Value}
    (hm : m.Ordered) (h : (eval e line).run m = (.ok v, m')) : v.Ordered := by
  unfold eval at h
  simp only [run_bind, run_get, run_set] at h
  rcases hv : (m.memo.evaluate e.source m.context.lookUp).1 with fault | w <;> rw [hv] at h
  · cases h
  · cases h
    exact hm.memo.ordered_evaluate hm.context.lookUp hv

section

variable {sv : Services} (htasks : sv.tasks.Ordered)

include htasks

theorem ordered_of_perform {name : String} {task : Task} {line : Nat} {args : List Value}
    (htask : Table.get? sv.tasks name = some task) (hargs : ∀ a ∈ args, a.Ordered)
    {m m' : Machine} {v : Value} (h : (perform sv line name task args).run m = (.ok v, m')) :
    v.Ordered := by
  unfold perform at h
  simp only [run_bind, run_get, run_modify] at h
  split at h
  · cases h
    exact htasks name task htask _ args hargs _ ‹_›
  · cases h
  · cases h

theorem ordered_share (pool : Pool) (clock : Nat) (jobs : List Job)
    (hjobs : ∀ job ∈ jobs,
      (∃ name, Table.get? sv.tasks name = some job.task) ∧ ∀ a ∈ job.args, a.Ordered)
    (busy : List Nat) {results : Table Value} (hresults : (Value.map results).Ordered) :
    (Value.map (share sv pool clock busy jobs results).1).Ordered := by
  induction jobs generalizing busy results with
  | nil => exact hresults
  | cons job rest ih =>
    obtain ⟨⟨⟨name, htask⟩, hargs⟩, hrest⟩ := List.forall_mem_cons.mp hjobs
    unfold share
    refine ih hrest _ ?_
    split
    · rename_i v hv
      refine .map (hresults.keys.insert _ _) fun entry hentry => ?_
      obtain rfl | hentry := Table.eq_or_mem_of_mem_insert hentry
      · exact htasks name _ htask _ _ hargs v hv
      · exact hresults.values entry hentry
    · exact hresults

theorem arranging_values : arranging.Values sv where
  hereditary := Value.hereditary_ordered
  eval hm h := ordered_of_eval hm h
  perform htask hargs h := ordered_of_perform htasks htask hargs h
  workOff {m m' jobs v} hjobs h := by
    cases h
    refine ordered_share htasks _ _ _ (fun job hjob => hjobs job (List.mem_reverse.mp hjob)) _ ?_
    exact .map .nil (List.forall_mem_nil _)

/-! ## The discipline is kept -/

theorem arranging_kept : arranging.Kept sv where
  shapes := .trivial (fun _ => trivial) fun _ _ => trivial
  flows := {
    normal := fun _ => trivial
    jump := fun _ _ => ⟨trivial, trivial, trivial⟩
    give := fun _ _ hv => hv
    block := id
    loopReturned := id
    loopBrokenAll := fun _ _ => trivial
    returned := id }
  values := arranging_values htasks
  quiet hr hm := hm.rests hr
  stop := id
  ordinary _ := trivial
  stray _ _ _ := trivial
  importPath {k s m path localName} _ _ hm := hm.write s <|
    Context.AllBound.declare (c := m.context.addImport localName path) hm.context localName
      (.scalar trivial)
  declare _ _ hv _ hm := hm.holds.write _ (hm.holds.context.declare _ hv)
  assign _ _ hv _ hm := hm.holds.write _ (hm.holds.context.assign _ fun _ => hv)
  taskBlock _ _ hv hm := hm.holds.write _ (hm.holds.context.assign _ fun _ => hv)
  exportValue _ _ hv hm := hm.holds.write _ (hm.holds.context.setExport hv)
  ended _ _ hm := hm
  hoist {_ _ nodes} _ hm := hm.moveTo (hm.context.hoist nodes)
  push hm := hm.moveTo (hm.context.push .block)
  pop _ hm' := hm'.moveTo (hm'.context.popTo _)
  enterLoop hm := hm.moveTo hm.context
  exitLoop _ hm' := hm'.moveTo hm'.context
  item _ _ hv hm := hm.moveTo (hm.context.declare _ hv)
  callable _ _ := ⟨trivial, fun _ _ _ _ _ => trivial, fun _ _ => ⟨rfl, trivial⟩⟩
  enterCall _ _ hargs hm := by
    have hentered := hm.moveTo (c := Context.enterFunction _) hm.context
    have hopened := hentered.moveTo (hentered.context.push .function)
    exact hopened.moveTo (hopened.context.bindParams _ hargs)
  leaveCall {_ _ m _} _ hm' := by
    have hleft := hm'.moveTo (hm'.context.popTo m.context.depth)
    exact hleft.moveTo (c := Context.exitFunction _ _) hleft.context
  ran _ hm _ hm' := hm'.conclude _ hm.context _
  called _ hm := hm.note (List.forall_mem_nil _)

end

/-! ## Whole runs -/

theorem ordered_start {host : HostValues} (hhost : ∀ entry ∈ host, entry.2.Ordered) {memo : Memo}
    (hmemo : memo.Sound) (monitor : Option Monitor) :
    ∀ m ∈ [start host memo monitor, (start host memo monitor).watched], m.Ordered := by
  have hcontext : (Context.ofHost host).Ordered := Context.allBound_ofHost hhost
  refine List.forall_mem_cons.mpr ⟨⟨hmemo, hcontext, by rintro _ ⟨⟩⟩,
    List.forall_mem_singleton.mpr ⟨hmemo, hcontext, ?_⟩⟩
  rintro _ ⟨⟩
  exact List.forall_mem_nil _

/-- A run of statements leaves a machine whose maps are in order, if those of the machine before
were, and so they are in all contexts that the run comes to. -/
theorem ordered_runList {sv : Services} (htasks : sv.tasks.Ordered) (frames : Nat)
    (nodes : List Statement) {m : Machine} (hm : m.Ordered) :
    ((runList sv (callFunction sv frames) nodes).run m).2.Ordered :=
  ((arranging_kept htasks).keeps_runList (k := ()) frames (fun _ _ => trivial) m hm).1

end Run

end PipelineScript
