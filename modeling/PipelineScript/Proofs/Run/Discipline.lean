import PipelineScript.Proofs.Run.Lockstep

/-! # Disciplines

A discipline says what holds of the machine of a single run from step to step, what statements may
look like, how they may end and what their values may be. It is kept if every single change of the
machine keeps to it. Such a run goes in step with itself, so the main statement comes from that of
two runs: every run keeps to the discipline (`Discipline.Kept.keeps_runList`), with all the blocks,
loops and functions that it goes through. -/

namespace PipelineScript

structure Discipline (μ : Type) where
  inBlock : μ → μ := id
  inLoop : μ → μ := id
  inFunction : μ → μ := id
  /-- What a statement may look like. -/
  fits : μ → Statement → Prop := fun _ _ => True
  /-- What the definition of a function may look like, apart from its body. -/
  defines : Statement → Prop := fun _ => True
  /-- What a value may be. -/
  value : Value → Prop := fun _ => True
  /-- How a statement may end. -/
  allows : μ → Flow → Prop := fun _ _ => True
  /-- Why the run may stop. -/
  permits : Halt → Prop := fun _ => True
  /-- What holds of the machine if the run goes on, and if it stops. -/
  holds : μ → Bool → Machine → Prop
  /-- What holds of it where a statement has come to its end, and nothing is told of it yet. -/
  ends : μ → Statement → Bool → Machine → Prop := fun k _ => holds k

namespace Discipline

open Run

variable {μ : Type} {α : Type}

/-- The run is paired with itself. -/
def beside (d : Discipline μ) : Pairing μ where
  inBlock := d.inBlock
  inLoop := d.inLoop
  inFunction := d.inFunction
  fits := d.fits
  defines := d.defines
  value := d.value
  allows := d.allows
  halts h h' := h' = h ∧ d.permits h
  holds _ k b m m' := m' = m ∧ d.holds k b m
  ends _ k s b m m' := m' = m ∧ d.ends k s b m

/-- The machine holds, and this is the value that the step has just given. -/
structure Gave (d : Discipline μ) (k : μ) (x : Run α) (a : α) (m : Machine) : Prop where
  holds : d.holds k true m
  run : ∃ began, d.holds k true began ∧ x.run began = (.ok a, m)

/-- What is evaluated, or comes back from tasks, are values of the discipline. -/
structure Values (d : Discipline μ) (sv : Services) : Prop where
  hereditary : Value.Hereditary d.value
  eval {k m m' e line v} : d.holds k true m → (Run.eval e line).run m = (.ok v, m') →
    d.value v
  perform {m m' line name task args v} : Table.get? sv.tasks name = some task →
    (∀ a ∈ args, d.value a) → (Run.perform sv line name task args).run m = (.ok v, m') → d.value v
  workOff {m m' jobs v} : (∀ job ∈ jobs, (∃ name, Table.get? sv.tasks name = some job.task) ∧
    ∀ a ∈ job.args, d.value a) → (Run.workOff sv jobs).run m = (.ok v, m') → d.value v

variable {d : Discipline μ}

theorem Values.trivial {sv : Services} (h : ∀ v, d.value v) : d.Values sv where
  hereditary := .trivial h
  eval _ _ := h _
  perform _ _ _ := h _
  workOff _ _ := h _

/-- Every single change of the machine keeps to the discipline. -/
structure Kept (d : Discipline μ) (sv : Services) : Prop where
  shapes : d.beside.Shapes
  flows : d.beside.Flows
  values : d.Values sv
  quiet {k m m'} : m.Rests m' → d.holds k true m → d.holds k true m'
  -- halts
  stop {k m} : d.holds k true m → d.holds k false m
  ordinary {h} : ¬ h.IsStray → d.permits h
  stray {k s} : d.fits k s → ArmOwner.ofArm? s.kind ≠ none →
    ∀ line, d.permits (.fault line (.strayArm s.kindName))
  -- ends of statements, those first that write
  importPath {k s m path localName} : d.fits k s → s.kind = .importPath path localName →
    d.holds k true m → d.ends k s true (m.write s
      ((m.context.addImport localName path).declare localName (.handle path) none))
  declare {k s m name declaredType value v call} : d.fits k s →
    s.kind = .declare name declaredType value → d.value v →
    (∀ t, declaredType = some t → v.matchesType? t ≠ some false) →
    d.Gave k (evalOptional (evalSource sv call s.line) value) v m →
    d.ends k s true (m.write s (m.context.declare name v declaredType))
  assign {k s m name value v call} : d.fits k s → s.kind = .assign name value → d.value v →
    (∀ b t, m.context.binding? name = some b → b.declaredType = some t →
      v.matchesType? t ≠ some false) →
    d.Gave k (evalSource sv call s.line value) v m →
    d.ends k s true (m.write s (m.context.assign name v))
  taskBlock {k s m target tasks t} : d.fits k s → s.kind = .taskBlock target tasks →
    d.value (.map t) → d.Gave k (runBlock sv tasks) (.map t) m →
    d.ends k s true (m.write s (m.context.assign target (.map t)))
  exportValue {k s m e v} : d.fits k s → s.kind = .exportValue e → d.value v →
    d.Gave k (eval e s.line) v m → d.ends k s true (m.write s (m.context.setExport v))
  ended {k s b m} : d.fits k s → (b = true → s.kind.isWrite = false) → d.holds k b m →
    d.ends k s b m
  -- blocks, loops and calls
  hoist {k m} {nodes : List Statement} : (∀ s ∈ nodes, d.fits k s) → d.holds k true m →
    d.holds k true (m.moveTo (nodes.foldl bindDefinition m.context))
  push {k m} : d.holds k true m → d.holds (d.inBlock k) true (m.moveTo (m.context.push .block))
  pop {k b m m'} : d.holds k true m → d.holds (d.inBlock k) b m' →
    d.holds k b (m'.moveTo (m'.context.popTo m.context.depth))
  enterLoop {k m} : d.holds k true m → d.holds (d.inLoop k) true (m.moveTo m.context.enterLoop)
  exitLoop {k b m m'} : d.holds k true m → d.holds (d.inLoop k) b m' →
    d.holds k b (m'.moveTo m'.context.exitLoop)
  item {k m s name it v} : d.fits k s → s.kind = .forLoop name it → d.value v →
    d.holds (d.inBlock (d.inLoop k)) true m →
    d.holds (d.inBlock (d.inLoop k)) true (m.moveTo (m.context.declare name v none))
  callable {k m name f} : d.holds k true m → m.context.function? name = some f →
    d.beside.Callable k f
  enterCall {k m f name params args} : d.beside.Callable k f → f.kind = .function name params →
    (∀ a ∈ args, d.value a) → d.holds k true m →
    d.holds (d.inFunction k) true (m.enterCall params args)
  leaveCall {k b m m'} : d.holds k true m → d.holds (d.inFunction k) b m' →
    d.holds k b (m.leaveCall m')
  -- events
  ran {k s b m m' outcome} : d.fits k s → d.holds k true m →
    d.beside.Outcome k b outcome outcome → d.ends k s b m' →
    d.holds k b (m'.conclude s m outcome)
  called {k m f b outcome} : d.beside.Outcome (d.inFunction k) b outcome outcome →
    d.holds (d.inFunction k) b m → d.holds (d.inFunction k) b (m.note (.called f outcome))

/-- From a machine of the mode the step goes to one of the mode, gives results as `post` says and
stops for permitted reasons only. -/
def Keeps (d : Discipline μ) (k : μ) (x : Run α) (post : α → Prop) : Prop :=
  ∀ m, d.holds k true m → d.holds k (x.run m).1.isOk (x.run m).2 ∧
    (∀ a, (x.run m).1 = .ok a → post a) ∧ ∀ h, (x.run m).1 = .error h → d.permits h

/-! ## One run as two -/

section

variable {k : μ} {n : Nat} {x y : Run α} {post : α → Prop} {a : α} {m m' : Machine}

theorem gave_of_beside (h : d.beside.Gave n k x y a m m') : m' = m ∧ d.Gave k x a m := by
  obtain ⟨⟨hm, hd⟩, _, _, ⟨-, hbegan⟩, hrun, -⟩ := h
  exact ⟨hm, hd, _, hbegan, hrun⟩

theorem keeps_of_together (h : d.beside.Together n k x x post) : d.Keeps k x post := by
  intro m hm
  have hmeet := h m m ⟨rfl, hm⟩
  exact ⟨hmeet.leaves.2, fun _ => hmeet.gives, fun _ he => (hmeet.halts he).choose_spec.2.2⟩

namespace Kept

variable {sv : Services} (kept : d.Kept sv)

include kept

theorem together_of_quiet (hx : Quiet x)
    (hpost : ∀ m a m', d.holds k true m → x.run m = (.ok a, m') → post a) :
    d.beside.Together n k x x post := by
  rintro _ m ⟨rfl, hm⟩
  obtain ⟨hrests, hstray⟩ := hx m
  have hm' := kept.quiet hrests hm
  rcases hr : x.run m with ⟨h | a, m'⟩ <;> rw [hr] at hstray hm'
  · exact .error ⟨rfl, kept.ordinary (hstray h rfl)⟩ ⟨rfl, kept.stop hm'⟩
  · exact .ok (hpost m a m' hm hr) ⟨rfl, hm'⟩

theorem beside : d.beside.Kept sv sv where
  loopTurns := rfl
  tasks := rfl
  shapes := kept.shapes
  flows := kept.flows
  values := kept.values.hereditary
  stop hm := ⟨hm.1, kept.stop hm.2⟩
  fault _ _ h := ⟨rfl, kept.ordinary h⟩
  rangeBound _ _ _ := ⟨rfl, kept.ordinary id⟩
  stray hs ha line := ⟨rfl, kept.stray hs ha line⟩
  exhausted _ _ := ⟨rfl, kept.ordinary id⟩
  deadline _ _ _ := kept.together_of_quiet (quiet_checkDeadline _ _) fun _ _ _ _ _ => trivial
  eval _ _ _ _ := kept.together_of_quiet (quiet_eval _ _) fun _ _ _ hm => kept.values.eval hm
  perform _ _ _ htask hargs := kept.together_of_quiet (quiet_perform _ _ _ _ _)
    fun _ _ _ _ => kept.values.perform htask hargs
  workOff _ _ hjobs := kept.together_of_quiet (quiet_workOff _ _)
    fun _ _ _ _ => kept.values.workOff hjobs
  echo _ _ _ _ := kept.together_of_quiet (quiet_echo _ _ _) fun _ _ _ _ _ => trivial
  function name hm := by
    obtain ⟨rfl, hm⟩ := hm
    exact ⟨(View.map_statement_plain _).symm, fun _ => kept.callable hm⟩
  resolve _ hm := by rw [hm.1]
  declaredType _ _ hm := by rw [hm.1]
  loopDepth hm := by rw [hm.1]
  importPath hs hk hm := by
    obtain ⟨rfl, hm⟩ := hm
    rw [d.beside.statement_of_plain rfl]
    exact ⟨rfl, kept.importPath hs hk hm⟩
  declare hs hk hv ht hgave := by
    obtain ⟨rfl, hgave⟩ := gave_of_beside hgave
    rw [d.beside.statement_of_plain rfl]
    exact ⟨rfl, kept.declare hs hk hv ht hgave⟩
  assign hs hk hv ht hgave := by
    obtain ⟨rfl, hgave⟩ := gave_of_beside hgave
    rw [d.beside.statement_of_plain rfl]
    exact ⟨rfl, kept.assign hs hk hv ht hgave⟩
  taskBlock hs hk hv hgave := by
    obtain ⟨rfl, hgave⟩ := gave_of_beside hgave
    rw [d.beside.statement_of_plain rfl]
    exact ⟨rfl, kept.taskBlock hs hk hv hgave⟩
  exportValue hs hk hv hgave := by
    obtain ⟨rfl, hgave⟩ := gave_of_beside hgave
    rw [d.beside.statement_of_plain rfl]
    exact ⟨rfl, kept.exportValue hs hk hv hgave⟩
  ended hs hw hm := ⟨hm.1, kept.ended hs hw hm.2⟩
  hoist hn hm := by
    obtain ⟨rfl, hm⟩ := hm
    rw [d.beside.statements_of_plain rfl]
    exact ⟨rfl, kept.hoist hn hm⟩
  push hm := by
    obtain ⟨rfl, hm⟩ := hm
    exact ⟨rfl, kept.push hm⟩
  pop hm hw := by
    obtain ⟨rfl, hm⟩ := hm
    obtain ⟨rfl, hw⟩ := hw
    exact ⟨rfl, kept.pop hm hw⟩
  enterLoop hm := by
    obtain ⟨rfl, hm⟩ := hm
    exact ⟨rfl, kept.enterLoop hm⟩
  exitLoop hm hw := by
    obtain ⟨rfl, hm⟩ := hm
    obtain ⟨rfl, hw⟩ := hw
    exact ⟨rfl, kept.exitLoop hm hw⟩
  item hs hk hv hm := by
    obtain ⟨rfl, hm⟩ := hm
    exact ⟨rfl, kept.item hs hk hv hm⟩
  enterCall hf hk hargs hm := by
    obtain ⟨rfl, hm⟩ := hm
    exact ⟨rfl, kept.enterCall hf hk hargs hm⟩
  leaveCall hm hw := by
    obtain ⟨rfl, hm⟩ := hm
    obtain ⟨rfl, hw⟩ := hw
    exact ⟨rfl, kept.leaveCall hm hw⟩
  ran hs hm ho hw := by
    obtain ⟨rfl, hm⟩ := hm
    obtain ⟨rfl, hw⟩ := hw
    obtain rfl := ho.eq And.left
    rw [d.beside.statement_of_plain rfl]
    exact ⟨rfl, kept.ran hs hm ho hw⟩
  called ho hm := by
    obtain ⟨rfl, hm⟩ := hm
    obtain rfl := ho.eq And.left
    rw [d.beside.statement_of_plain rfl]
    exact ⟨rfl, kept.called ho hm⟩

/-! ## Statements and lists -/

theorem keeps_runStatement (n : Nat) {s : Statement} (hs : d.fits k s) (hm : d.holds k true m) :
    let r := (runStatement sv (callFunction sv n) s).run m
    d.ends k s r.1.isOk r.2 := by
  have hmeet := kept.beside.together_runStatement n hs m m ⟨rfl, hm⟩
  rw [d.beside.statement_of_plain rfl] at hmeet
  exact hmeet.leaves.2

/-- A run of statements that fit keeps to the discipline. -/
theorem keeps_runList (n : Nat) {nodes : List Statement} (hn : ∀ s ∈ nodes, d.fits k s) :
    d.Keeps k (runList sv (callFunction sv n) nodes) (d.allows k) := by
  have htogether := kept.beside.together_runList n hn
  rw [d.beside.statements_of_plain rfl] at htogether
  exact keeps_of_together htogether

end Kept

end

end Discipline

end PipelineScript
