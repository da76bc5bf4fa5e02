import PipelineScript.Proofs.Run.Lockstep

/-! # Watching a run

No step looks at the events that a watched run keeps, so a run goes in step with one that nobody
watches. Main statement: that one ends as the watched one does, with the same machine but for the
events (`run_unwatched`). What the events of a watched run tell is therefore true of the run that
takes place. -/

namespace PipelineScript

namespace Machine

/-- The machine without its events. -/
def unwatched (m : Machine) : Machine := { m with events := none }

/-- The machine is watched, and all it tells so far has the property. -/
def Tells (P : Event → Prop) (m : Machine) : Prop := ∃ es, m.events = some es ∧ ∀ e ∈ es, P e

variable {P : Event → Prop} {m m' : Machine}

theorem tells_watched (m : Machine) : m.watched.Tells P := ⟨[], rfl, by simp⟩

theorem Tells.of_events (h : m.Tells P) (he : m'.events = m.events) : m'.Tells P := by
  obtain ⟨es, hes, hp⟩ := h
  exact ⟨es, he.trans hes, hp⟩

theorem Tells.note (h : m.Tells P) {e : Event} (he : P e) : (m.note e).Tells P := by
  obtain ⟨es, hes, hp⟩ := h
  exact ⟨e :: es, by simp [Machine.note, hes], List.forall_mem_cons.mpr ⟨he, hp⟩⟩

theorem Tells.moveTo (h : m.Tells P) {c : Context} (hc : P (.moved c)) : (m.moveTo c).Tells P := by
  obtain ⟨es, hes, hp⟩ := h
  exact ⟨.moved c :: es, by simp [Machine.moveTo, Machine.note, hes],
    List.forall_mem_cons.mpr ⟨hc, hp⟩⟩

theorem Tells.write (h : m.Tells P) {s : Statement} {c : Context} (hc : P (.wrote s m.context c)) :
    (m.write s c).Tells P := by
  obtain ⟨es, hes, hp⟩ := h
  exact ⟨.wrote s m.context c :: es, by simp [Machine.write, Machine.note, hes],
    List.forall_mem_cons.mpr ⟨hc, hp⟩⟩

theorem Tells.conclude (h : m.Tells P) {s : Statement} {began : Machine}
    {outcome : Except Halt Flow} (he : P (.ran s began.context outcome)) :
    (m.conclude s began outcome).Tells P := by
  have hrecorded : Tells P { m with
      monitor := m.monitor.map fun t => t.record s.kindName (m.clock - began.clock) } :=
    h.of_events rfl
  exact hrecorded.note he

end Machine

namespace Run

variable {α : Type}

/-- The pairing of a watched run with the same run unwatched. -/
def watching : Pairing Unit where
  halts h h' := h' = h
  holds _ _ _ m m' := m' = m.unwatched

/-- The step takes no notice of the events. -/
def Blind (x : Run α) : Prop :=
  ∀ m : Machine, x.run m.unwatched = ((x.run m).1, (x.run m).2.unwatched)

theorem Blind.together {x : Run α} (hx : Blind x) (n : Nat) :
    watching.Together n () x x fun _ => True := by
  rintro m _ rfl
  rw [hx m]
  exact .of_fst_eq rfl (fun _ _ => rfl) (fun _ _ => trivial) rfl

theorem blind_eval (e : SourceExpr) (line : Nat) : Blind (eval e line) := by
  intro m
  unfold eval
  simp only [run_bind, run_get, run_set]
  rw [show m.unwatched.memo = m.memo from rfl, show m.unwatched.context = m.context from rfl]
  rcases (m.memo.evaluate e.source m.context.lookUp).1 with fault | v <;> rfl

theorem blind_checkDeadline (limitMillis : Option Nat) (line : Nat) :
    Blind (checkDeadline limitMillis line) := by
  intro m
  unfold checkDeadline
  simp only [run_bind, run_get, run_modify]
  cases limitMillis with
  | none => rfl
  | some limit =>
    by_cases h : limit * 1000000 < m.clock + tick
    · simp only [Machine.unwatched, h, if_true]; rfl
    · simp only [Machine.unwatched, h, if_false]; rfl

theorem blind_perform (sv : Services) (line : Nat) (name : String) (task : Task)
    (args : List Value) : Blind (perform sv line name task args) := by
  intro m
  unfold perform
  simp only [run_bind, run_get, run_modify]
  rw [show m.unwatched.clock = m.clock from rfl]
  split <;> rfl

theorem watching_kept (sv : Services) : watching.Kept sv sv where
  loopTurns := rfl
  tasks := rfl
  shapes := .trivial (fun _ => trivial) fun _ _ => trivial
  flows := .trivial (fun _ _ => trivial) fun _ => trivial
  values := .trivial fun _ => trivial
  stop := id
  fault _ _ _ := rfl
  rangeBound _ _ _ := rfl
  stray _ _ _ := rfl
  exhausted _ _ := rfl
  deadline n _ _ := (blind_checkDeadline _ _).together n
  eval n _ _ _ := (blind_eval _ _).together n
  perform n _ _ _ _ := (blind_perform _ _ _ _ _).together n
  workOff n _ _ := Blind.together (fun _ => rfl) n
  echo n _ _ _ := Blind.together (by cases sv.echoes <;> exact fun _ => rfl) n
  function name hm := by
    subst hm
    exact ⟨(View.map_statement_plain _).symm, fun _ _ => ⟨trivial, fun _ _ _ _ _ => trivial,
      fun _ _ => rfl⟩⟩
  resolve _ hm := by rw [hm]; rfl
  declaredType _ _ hm := by rw [hm]; rfl
  loopDepth hm := by rw [hm]; rfl
  importPath _ _ hm := by rw [hm]; rfl
  declare _ _ _ _ hm := by rw [hm.holds]; rfl
  assign _ _ _ _ hm := by rw [hm.holds]; rfl
  taskBlock _ _ _ hm := by rw [hm.holds]; rfl
  exportValue _ _ _ hm := by rw [hm.holds]; rfl
  ended _ _ hm := hm
  hoist _ hm := by
    rw [hm, watching.statements_of_plain rfl]
    rfl
  push hm := by rw [hm]; rfl
  pop hm hw := by rw [hm, hw]; rfl
  enterLoop hm := by rw [hm]; rfl
  exitLoop _ hw := by rw [hw]; rfl
  item _ _ _ hm := by rw [hm]; rfl
  enterCall _ _ _ hm := by rw [hm]; rfl
  leaveCall hm hw := by rw [hm, hw]; rfl
  ran _ hm _ hw := by
    rw [hm, hw, watching.statement_of_plain rfl]
    rfl
  called _ hm := by rw [hm]; rfl

/-- Nobody has to watch a run for it to end as it does. -/
theorem run_unwatched (sv : Services) (frames : Nat) (nodes : List Statement) (m : Machine) :
    let run := runList sv (callFunction sv frames) nodes
    run.run m.unwatched = ((run.run m).1, (run.run m).2.unwatched) := by
  intro run
  have hmeet := (watching_kept sv).together_runList (k := ()) frames
    (fun s (_ : s ∈ nodes) => trivial) m _ rfl
  rw [watching.statements_of_plain rfl] at hmeet
  exact Prod.ext (hmeet.fst_eq id) hmeet.leaves

theorem script_unwatched (sv : Services) (nodes : List Statement) (m : Machine) :
    (script sv nodes).run m.unwatched =
      (((script sv nodes).run m).1, ((script sv nodes).run m).2.unwatched) := by
  rw [run_script, run_script, run_unwatched]
  rcases (runList sv (callFunction sv maxCallDepth) nodes).run m with ⟨_ | flow, m'⟩ <;> rfl

end Run

end PipelineScript
