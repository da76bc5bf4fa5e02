import Mathlib
import PipelineScript.Proofs.Context.DeclaredTypes
import PipelineScript.Proofs.Run.Discipline
import PipelineScript.Proofs.Run.Watching
import PipelineScript.Script

/-! # Declared types at every point of a run

Every statement that writes a value checks it against the declared type of the name, or binds the
name anew, with one exception: a task block writes its map unchecked. Main statement:
`typed_iff_harmless`. Up to any point of a run the declared types have been respected if and only if
no task block has written to a name that is declared with a type without maps. -/

namespace PipelineScript

/-- The declared types are respected after the event. -/
def Event.Typed : Event → Prop
  | .moved c | .wrote _ _ c => c.Typed
  | .ran .. | .called .. => True

/-- If a task block has written, the name that it wrote to may stand for a map. -/
def Event.Harmless : Event → Prop
  | .wrote s before _ =>
    ∀ target tasks, s.kind = .taskBlock target tasks → before.Admits target (.map [])
  | .moved _ | .ran .. | .called .. => True

/-- All maps are of the same types. -/
theorem Value.matchesType?_map (entries : List (String × Value)) (declared : String) :
    (Value.map entries).matchesType? declared = (Value.map []).matchesType? declared := by
  unfold Value.matchesType?
  split <;> simp_all [Value.isNull]

theorem Context.admits_map {c : Context} {name : String} (entries : List (String × Value)) :
    c.Admits name (.map entries) ↔ c.Admits name (.map []) := by
  simp only [Context.Admits, Value.matchesType?_map entries]

namespace Run

/-- Up to every one of the events, only harmful ones are to blame for a value of a wrong type. -/
def Blamed (events : List Event) : Prop :=
  ∀ es, es <:+ events → ((∀ e ∈ es, e.Typed) ↔ ∀ e ∈ es, e.Harmless)

/-- The discipline of declared types. -/
def typing : Discipline Unit where
  holds _ _ m := ∃ es, m.events = some es ∧ Blamed es ∧
    ((∀ e ∈ es, e.Typed) → m.context.Typed)

/-- The next event respects the declared types if and only if it is harmless, and what it leaves
behind respects them as well. -/
theorem typing_note {b : Bool} {m m' : Machine} {e : Event} (hm : typing.holds () b m)
    (hevents : m'.events = m.events.map (e :: ·))
    (he : m.context.Typed → (e.Typed ↔ e.Harmless))
    (hc : m.context.Typed → e.Typed → m'.context.Typed) : typing.holds () b m' := by
  obtain ⟨es, hes, hb, ht⟩ := hm
  refine ⟨e :: es, by rw [hevents, hes]; rfl, fun es' hs => ?_, fun h => ?_⟩
  · obtain rfl | hs := List.suffix_cons_iff.mp hs
    · have hes := hb es (List.suffix_refl es)
      simp only [List.forall_mem_cons]
      constructor
      · intro h; exact ⟨(he (ht h.2)).mp h.1, hes.mp h.2⟩
      · intro h; exact ⟨(he (ht (hes.mpr h.2))).mpr h.1, hes.mpr h.2⟩
    · exact hb es' hs
  · obtain ⟨h, hrest⟩ := List.forall_mem_cons.mp h
    exact hc (ht hrest) h

theorem typing_moveTo {b : Bool} {m : Machine} {c : Context} (hm : typing.holds () b m)
    (hc : m.context.Typed → c.Typed) : typing.holds () b (m.moveTo c) :=
  typing_note hm rfl (fun h => ⟨fun _ => trivial, fun _ => hc h⟩) fun h _ => hc h

theorem typing_write {b : Bool} {m : Machine} {s : Statement} {c : Context}
    (hm : typing.holds () b m) (hs : ∀ target tasks, s.kind ≠ .taskBlock target tasks) (hc : m.context.Typed → c.Typed) :
    typing.holds () b (m.write s c) :=
  typing_note hm rfl
    (fun h => ⟨fun _ target tasks hk => absurd hk (hs target tasks), fun _ => hc h⟩)
    fun h _ => hc h

theorem typing_kept (sv : Services) : typing.Kept sv where
  shapes := .trivial (fun _ => trivial) fun _ _ => trivial
  flows := .trivial (fun _ _ => trivial) fun _ => trivial
  values := .trivial fun _ => trivial
  quiet hr hm := by
    obtain ⟨es, hes, hb, ht⟩ := hm
    exact ⟨es, hr.events.trans hes, hb, hr.context ▸ ht⟩
  stop := id
  ordinary _ := trivial
  stray _ _ _ := trivial
  importPath {k s m path localName} _ hk hm := typing_write hm (by simp [hk]) fun h =>
    Context.Typed.declare_untyped (c := m.context.addImport localName path) h _ _
  declare _ hk _ hv hm := typing_write hm.holds (by simp [hk]) fun h => h.declare _ hv
  assign _ hk _ hv hm := typing_write hm.holds (by simp [hk]) fun h =>
    (Context.typed_assign_iff h _ _).mpr hv
  taskBlock {k s m target tasks t} _ hk _ hm := by
    refine typing_note hm.holds rfl (fun h => ?_) fun _ ht => ht
    refine (Context.typed_assign_iff h target (.map t)).trans ((Context.admits_map t).trans ?_)
    constructor
    · intro ha other others hk'
      rw [hk] at hk'; cases hk'
      exact ha
    · intro ha; exact ha target tasks hk
  exportValue _ hk _ hm := typing_write hm.holds (by simp [hk]) fun h => h.setExport _
  ended _ _ hm := hm
  hoist _ hm := typing_moveTo hm fun h => h.hoist _
  push hm := typing_moveTo hm fun h => h.push _
  pop _ hm' := typing_moveTo hm' fun h => h.popTo _
  enterLoop hm := typing_moveTo hm fun h => h
  exitLoop _ hm' := typing_moveTo hm' fun h => h
  item _ _ _ hm := typing_moveTo hm fun h => h.declare_untyped _ _
  callable _ _ := ⟨trivial, fun _ _ _ _ _ => trivial, fun _ _ => ⟨rfl, trivial⟩⟩
  enterCall {k m f name params args} _ _ _ hm := by
    have hf : typing.holds () true (m.moveTo m.context.enterFunction) := typing_moveTo hm fun h => h
    exact typing_moveTo (typing_moveTo hf fun h => h.push .function) fun h => h.bindParams _ args
  leaveCall {k _ m m'} _ hm' := typing_moveTo
    (typing_moveTo hm' fun h => h.popTo m.context.depth) fun h => h
  ran _ _ _ hm' := typing_note hm' rfl (fun _ => Iff.rfl) fun h _ => h
  called _ hm := typing_note hm rfl (fun _ => Iff.rfl) fun h _ => h

/-- Up to every point of a run all live bindings agree with their declared types, if and only if
every task block so far wrote to a name that may stand for a map. -/
theorem typed_iff_harmless (sv : Services) (nodes : List Statement) (host : HostValues)
    (memo : Memo) (monitor : Option Monitor) :
    let run := runList sv (callFunction sv maxCallDepth) nodes
    let m := start host memo monitor
    m.context.Typed ∧
    run.run m = ((run.run m.watched).1, (run.run m.watched).2.unwatched) ∧
    ∃ events, (run.run m.watched).2.events = some events ∧
      (∀ es, es <:+ events → ((∀ e ∈ es, e.Typed) ↔ ∀ e ∈ es, e.Harmless)) ∧
      ((∀ e ∈ events, e.Harmless) → (run.run m).2.context.Typed) := by
  intro run m
  have hc : m.context.Typed := Context.typed_ofHost host
  have hm : typing.holds () true m.watched :=
    ⟨[], rfl, fun es hs => by simp [List.suffix_nil.mp hs], fun _ => hc⟩
  have hw : run.run m = ((run.run m.watched).1, (run.run m.watched).2.unwatched) :=
    run_unwatched sv maxCallDepth nodes m.watched
  obtain ⟨⟨events, he, hb, ht⟩, -⟩ :=
    (typing_kept sv).keeps_runList maxCallDepth (fun _ _ => trivial) m.watched hm
  refine ⟨hc, hw, events, he, hb, fun hh => ?_⟩
  rw [hw]
  exact ht ((hb events (List.suffix_refl events)).mpr hh)

/-- A task block without tasks gives an empty map to a name that is declared as an integer. -/
def mapForInteger : String := "declare r: int\ntask r \x7b\n\x7d"

def mapForIntegerTree : List Statement := [
  .ofLine (.declare "r" (some "int") none) 1,
  .ofLine (.taskBlock "r" []) 2]

theorem compile_mapForInteger :
    Script.compile mapForInteger = .ok ⟨Digest.ofText mapForInteger, mapForIntegerTree⟩ := by
  have hs : Statement.ofSource mapForInteger = .ok mapForIntegerTree := by cbv
  have hf : Finding.check mapForIntegerTree = .ok () := by cbv
  simp only [Script.compile, hs, hf, bind, Except.bind, pure, Except.pure]

/-- The run of a script that compiles may come to an integer with a map for its value. -/
theorem taskBlock_breaks_declaredType :
    ∃ script, Script.compile mapForInteger = .ok script ∧
      ¬ ((runList (.bare 0) (callFunction (.bare 0) maxCallDepth) script.statements).run
        (start [] .standard none)).2.context.Typed := by
  refine ⟨_, compile_mapForInteger, fun ht => ?_⟩
  have hb : ((runList (.bare 0) (callFunction (.bare 0) maxCallDepth) mapForIntegerTree).run
      (start [] .standard none)).2.context.global.bindings = [("r", ⟨.map [], some "int"⟩)] := rfl
  have hglobal := ht _ (List.mem_append_right _ (List.mem_singleton_self _))
  exact hglobal "r" ⟨.map [], some "int"⟩ (by rw [hb]; rfl) "int" rfl rfl

end Run

end PipelineScript
