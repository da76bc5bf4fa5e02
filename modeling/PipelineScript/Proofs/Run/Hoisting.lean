import Mathlib
import PipelineScript.Proofs.Finding.WellFormed
import PipelineScript.Proofs.Run.Alike
import PipelineScript.Proofs.Table
import PipelineScript.Task.Standard

/-! # Where a function is defined

The functions of a list are known before its first statement runs, and a definition does nothing
more when its turn comes, save that a look at the clock takes its time. Main statement: the
definitions of a list may stand wherever they like among its other statements, and the list comes to
the same end in the same context (`runList_rearranged`), as long as nothing depends on the time. -/

namespace PipelineScript

open Statement

/-! ## Definitions that come in another order -/

namespace Context

theorem bindFunction_comm (c : Context) {name other : String} (h : name ≠ other)
    (f g : Statement) : (c.bindFunction name f).bindFunction other g =
      (c.bindFunction other g).bindFunction name f := by
  obtain ⟨inner, global, imports, loopDepth, callDepth⟩ := c
  cases inner <;> simp only [bindFunction, modifyCurrent, Table.insert_comm h]

end Context

namespace Statement

/-- The statements of a list that define no function. -/
def others (nodes : List Statement) : List Statement :=
  nodes.filter fun s => s.kind.defined?.isNone

/-- The statements of the second list are those of the first. Those that define no function come in
the same order. -/
structure Rearranged (nodes nodes' : List Statement) : Prop where
  perm : nodes'.Perm nodes
  others : others nodes' = others nodes

variable {nodes nodes' : List Statement}

/-- Two definitions of a name are one. -/
theorem DistinctFunctions.eq_of_defined? (h : DistinctFunctions nodes) {s t : Statement}
    (hs : s ∈ nodes) (ht : t ∈ nodes) {name : String} (hsn : s.kind.defined? = some name)
    (htn : t.kind.defined? = some name) : s = t := by
  have hpairs := List.pairwise_filterMap.mp h
  have : Std.Symm fun s t : Statement => ∀ a, s.kind.defined? = some a →
      ∀ b, t.kind.defined? = some b → a ≠ b :=
    ⟨fun _ _ hdiffer a ha b hb => (hdiffer b hb a ha).symm⟩
  by_contra hne
  exact hpairs.forall hs ht hne name hsn name htn rfl

end Statement

namespace Run

variable {nodes nodes' : List Statement}

theorem bindDefinition_of_defined? {s : Statement} (h : s.kind.defined? = none) (c : Context) :
    bindDefinition c s = c := by
  obtain ⟨kind, shape, line, children⟩ := s
  cases kind <;> first | rfl | cases h

theorem bindDefinition_comm {s t : Statement}
    (h : ∀ name, s.kind.defined? = some name → t.kind.defined? ≠ some name) (c : Context) :
    bindDefinition (bindDefinition c s) t = bindDefinition (bindDefinition c t) s := by
  cases hs : s.kind.defined? with
  | none => rw [bindDefinition_of_defined? hs, bindDefinition_of_defined? hs]
  | some name =>
    cases ht : t.kind.defined? with
    | none => rw [bindDefinition_of_defined? ht, bindDefinition_of_defined? ht]
    | some other =>
      have hne : name ≠ other := fun he => h name hs (he ▸ ht)
      obtain ⟨kind, shape, line, children⟩ := s
      obtain ⟨kind', shape', line', children'⟩ := t
      cases kind <;> cases hs
      cases kind' <;> cases ht
      exact c.bindFunction_comm hne _ _

/-- The same functions are known, in whatever order they are defined. -/
theorem foldl_bindDefinition_perm (hnames : DistinctFunctions nodes) (h : nodes'.Perm nodes)
    (c : Context) : nodes'.foldl bindDefinition c = nodes.foldl bindDefinition c := by
  refine (h.symm.foldl_eq' (fun s hs t ht c => ?_) c).symm
  by_cases he : s = t
  · rw [he]
  · exact bindDefinition_comm
      (fun name hsn htn => he (hnames.eq_of_defined? hs ht hsn htn)) c

end Run

/-! ## Runs that differ in time -/

/-- The machines differ at most in their clocks, in the timings that they keep and in what they
tell. -/
structure Machine.Matches (m m' : Machine) : Prop where
  context : m'.context = m.context
  memo : m'.memo = m.memo
  echoed : m'.echoed = m.echoed

namespace Machine.Matches

variable {m m' : Machine}

theorem refl (m : Machine) : m.Matches m := ⟨rfl, rfl, rfl⟩

theorem moveTo (h : m.Matches m') {c c' : Context} (hc : c' = c) :
    (m.moveTo c).Matches (m'.moveTo c') := ⟨hc, h.memo, h.echoed⟩

theorem setClock (h : m.Matches m') (t u : Nat) :
    ({ m with clock := t }).Matches { m' with clock := u } := ⟨h.context, h.memo, h.echoed⟩

theorem write (h : m.Matches m') (s s' : Statement) (f : Context → Context) :
    (m.write s (f m.context)).Matches (m'.write s' (f m'.context)) :=
  ⟨congrArg f h.context, h.memo, h.echoed⟩

theorem move (h : m.Matches m') (f : Context → Context) :
    (m.moveTo (f m.context)).Matches (m'.moveTo (f m'.context)) := h.moveTo (congrArg f h.context)

end Machine.Matches

namespace Run

/-- The same statements, at different times. -/
def matching : Pairing Unit where
  halts h h' := h' = h
  holds _ _ _ := Machine.Matches

variable {sv : Services} {n : Nat} {m m' : Machine}

theorem matching_eval (e : SourceExpr) (n line : Nat) :
    matching.Together n () (eval e line) (eval e line) fun _ => True := by
  intro m m' hm
  unfold eval
  simp only [run_bind, run_get, run_set, hm.context, hm.memo]
  split
  · exact .ok trivial ⟨rfl, rfl, hm.echoed⟩
  · exact .error rfl ⟨rfl, rfl, hm.echoed⟩

theorem matching_deadline (hlimit : sv.limitMillis = none) (n line : Nat) :
    matching.Together n () (checkDeadline sv.limitMillis line) (checkDeadline sv.limitMillis line)
      fun _ => True := by
  rw [hlimit]
  exact fun m m' hm => .ok trivial ⟨hm.context, hm.memo, hm.echoed⟩

theorem matching_perform (htasks : sv.tasks.Timeless) {name : String} {task : Task}
    (htask : Table.get? sv.tasks name = some task) (n line : Nat) (args : List Value) :
    matching.Together n () (perform sv line name task args) (perform sv line name task args)
      fun _ => True := by
  intro m m' hm
  have houtcome := htasks name task htask (siteAt sv m.clock none) (siteAt sv m'.clock none) args rfl
  unfold perform
  simp only [run_bind, run_get, run_modify, houtcome]
  split
  · exact .ok trivial (hm.setClock _ _)
  · exact .error rfl (hm.setClock _ _)
  · exact .error rfl (hm.setClock _ _)

theorem matching_workOff (htasks : sv.tasks.Timeless) {jobs : List Job}
    (hjobs : ∀ job ∈ jobs, ∃ name, Table.get? sv.tasks name = some job.task) (n : Nat) :
    matching.Together n () (workOff sv jobs) (workOff sv jobs) fun _ => True := by
  intro m m' hm
  refine .of_fst_eq ?_ (fun _ _ => rfl) (fun _ _ => trivial) ⟨hm.context, hm.memo, hm.echoed⟩
  refine congrArg (fun results => Except.ok (Value.map results)) ?_
  exact share_timeless rfl htasks (fun job hjob => hjobs job (List.mem_reverse.mp hjob)) _ _ _ _ _ _ _

theorem matching_echo (n line : Nat) (message : String) :
    matching.Together n () (echo sv.echoes line message) (echo sv.echoes line message)
      fun _ => True := by
  intro m m' hm
  cases sv.echoes with
  | false => exact .ok trivial hm
  | true => exact .ok trivial ⟨hm.context, hm.memo, congrArg ((line, message) :: ·) hm.echoed⟩

theorem matching_kept (hlimit : sv.limitMillis = none) (htasks : sv.tasks.Timeless) :
    matching.Kept sv sv where
  loopTurns := rfl
  tasks := rfl
  shapes := .trivial (fun _ => trivial) fun _ _ => trivial
  flows := .trivial (fun _ _ => trivial) fun _ => trivial
  values := .trivial fun _ => trivial
  stop := id
  fault _ _ _ := rfl
  rangeBound _ _ _ := rfl
  stray _ _ _ := rfl
  exhausted _ _ := rfl
  deadline n _ line := matching_deadline hlimit n line
  eval n _ line _ := matching_eval _ n line
  perform n _ line htask _ := matching_perform htasks htask n line _
  workOff n _ hjobs := matching_workOff htasks (fun job hjob => (hjobs job hjob).1) n
  echo n _ line message := matching_echo n line message
  function name hm := by
    rw [hm.context]
    exact ⟨(View.map_statement_plain _).symm, fun _ _ => ⟨trivial, fun _ _ _ _ _ => trivial,
      fun _ _ => rfl⟩⟩
  resolve name hm := congrArg (·.resolve name) hm.context
  declaredType _ _ hm := by rw [hm.context]
  loopDepth hm := congrArg Context.loopDepth hm.context
  importPath {_ _ _ _ _ path localName} _ _ hm :=
    hm.write _ _ fun c => (c.addImport localName path).declare localName (.handle path) none
  declare {_ _ _ _ _ name declaredType _ v _ _} _ _ _ _ hm :=
    hm.holds.write _ _ fun c => c.declare name v declaredType
  assign {_ _ _ _ _ name _ v _ _} _ _ _ _ hm := hm.holds.write _ _ fun c => c.assign name v
  taskBlock {_ _ _ _ _ target _ t} _ _ _ hm :=
    hm.holds.write _ _ fun c => c.assign target (.map t)
  exportValue {_ _ _ _ _ _ v} _ _ _ hm := hm.holds.write _ _ fun c => c.setExport v
  ended _ _ hm := hm
  hoist {_ _ _ _ nodes} _ hm := by
    rw [matching.statements_of_plain rfl]
    exact hm.move fun c => nodes.foldl bindDefinition c
  push hm := hm.move fun c => c.push .block
  pop hm hw := hw.moveTo (by rw [hm.context, hw.context])
  enterLoop hm := hm.move Context.enterLoop
  exitLoop _ hw := hw.move Context.exitLoop
  item {_ _ _ _ _ name _ v} _ _ _ hm := hm.move fun c => c.declare name v none
  enterCall {_ _ _ _ _ _ params args} _ _ _ hm :=
    ((hm.move Context.enterFunction).move fun c => c.push .function).move (bindParams params args)
  leaveCall {_ _ _ m m' w w'} hm hw := by
    have hleft : (w.moveTo (w.context.popTo m.context.depth)).Matches
        (w'.moveTo (w'.context.popTo m'.context.depth)) :=
      hw.moveTo (by rw [hm.context, hw.context])
    exact hleft.moveTo (by rw [hleft.context, hm.context])
  ran _ _ _ hw := ⟨hw.context, hw.memo, hw.echoed⟩
  called _ hm := ⟨hm.context, hm.memo, hm.echoed⟩

/-! ## Definitions whose turn has come -/

variable {call : Statement → List Value → Nat → Run Value}

/-- A definition is passed over. -/
theorem runEach_definition (hlimit : sv.limitMillis = none) {s : Statement}
    (hs : s.kind.defined?.isSome) (rest : List Statement) (m : Machine) :
    ∃ k, m.Matches k ∧ (runEach sv call (s :: rest)).run m = (runEach sv call rest).run k := by
  obtain ⟨kind, shape, line, children⟩ := s
  cases kind with
  | function name params =>
    let s : Statement := ⟨.function name params, shape, line, children⟩
    refine ⟨((observed s (return .normal)).run { m with clock := m.clock + tick }).2,
      ⟨rfl, rfl, rfl⟩, ?_⟩
    rw [runEach, runStatement, hlimit]
    rfl
  | _ => cases hs

/-- A list does what it does without its definitions. -/
theorem together_others (hlimit : sv.limitMillis = none) (htasks : sv.tasks.Timeless)
    (hcall : matching.CallsTogether n call call) (nodes : List Statement) :
    matching.Together n () (runEach sv call nodes) (runEach sv call (others nodes))
      fun _ => True := by
  have kept := matching_kept hlimit htasks
  induction nodes with
  | nil => exact .pure trivial
  | cons s rest ih =>
    cases hs : s.kind.defined? with
    | some name =>
      intro m m' hm
      obtain ⟨k, hk, hrun⟩ := runEach_definition hlimit (by rw [hs]; rfl) rest m
      have hothers : others (s :: rest) = others rest :=
        List.filter_cons_of_neg (by simp [hs])
      rw [hrun, hothers]
      exact ih k m' ⟨hm.context.trans hk.context.symm, hm.memo.trans hk.memo.symm,
        hm.echoed.trans hk.echoed.symm⟩
    | none =>
      have hothers : others (s :: rest) = s :: others rest :=
        List.filter_cons_of_pos (by simp [hs])
      rw [hothers, runEach, runEach]
      have hran := kept.together_observed (k := ()) (s := s) trivial
        (kept.leads_statement hcall s trivial)
      rw [matching.statement_of_plain rfl] at hran
      refine (kept.deadline n () s.line).bind fun _ _ => hran.bind fun flow _ => ?_
      cases flow with
      | normal => exact ih
      | _ => exact .pure trivial

/-! ## Main statement -/

/-- A list and a rearrangement of it do the same in any context: they end in the same way or stop
for the same reason, with the same lines echoed and in the same context. -/
theorem runList_rearranged {sv : Services} (hlimit : sv.limitMillis = none)
    (htasks : sv.tasks.Timeless) {nodes nodes' : List Statement}
    (hnames : DistinctFunctions nodes) (h : Rearranged nodes nodes') (frames : Nat) (m : Machine) :
    let run := (runList sv (callFunction sv frames) nodes).run m
    let run' := (runList sv (callFunction sv frames) nodes').run m
    run'.1 = run.1 ∧ run'.2.echoed = run.2.echoed ∧ run'.2.context = run.2.context := by
  intro run run'
  have hcall := (matching_kept hlimit htasks).calls_together frames
  have hothers (nodes : List Statement) (m : Machine) :=
    together_others hlimit htasks hcall nodes m m (.refl m)
  have hrun : run = (runEach sv (callFunction sv frames) nodes).run
      (m.moveTo (nodes.foldl bindDefinition m.context)) := rfl
  have hrun' : run' = (runEach sv (callFunction sv frames) nodes').run
      (m.moveTo (nodes.foldl bindDefinition m.context)) := by
    rw [← foldl_bindDefinition_perm hnames h.perm]
    rfl
  have hmeet := hothers nodes (m.moveTo (nodes.foldl bindDefinition m.context))
  have hmeet' := hothers nodes' (m.moveTo (nodes.foldl bindDefinition m.context))
  rw [h.others, ← hrun'] at hmeet'
  rw [← hrun] at hmeet
  have hend : Machine.Matches _ _ := hmeet.leaves
  have hend' : Machine.Matches _ _ := hmeet'.leaves
  exact ⟨(hmeet'.fst_eq id).symm.trans (hmeet.fst_eq id), hend'.echoed.symm.trans hend.echoed,
    hend'.context.symm.trans hend.context⟩

/-- A function that is called first is moved behind the `return` that ends the list. It calls
another one, which is defined there, too. -/
theorem runList_rearranged_unreached :
    let take : Statement := .ofLine (.call ⟨"f", []⟩) 1
    let f : Statement := .ofBlock (.function "f" []) 2 [.ofLine (.call ⟨"g", []⟩) 3]
    let give : Statement := .ofLine (.returnValue none) 5
    let g : Statement := .ofBlock (.function "g" []) 6 []
    let nodes := [take, f, give, g]
    let nodes' := [take, give, f, g]
    let m := start [] .standard none
    (Services.bare 0).limitMillis = none ∧ (Services.bare 0).tasks.Timeless ∧
      DistinctFunctions nodes ∧ Rearranged nodes nodes' ∧
      let run := (runList (.bare 0) (callFunction (.bare 0) 2) nodes).run m
      let run' := (runList (.bare 0) (callFunction (.bare 0) 2) nodes').run m
      run'.1 = run.1 ∧ run'.2.echoed = run.2.echoed ∧ run'.2.context = run.2.context := by
  intro take f give g nodes nodes' m
  have htasks : (Services.bare 0).tasks.Timeless := by rintro name task ⟨⟩
  have hnames : DistinctFunctions nodes := by
    show ["f", "g"].Nodup
    decide
  have hmoved : Rearranged nodes nodes' := ⟨(List.Perm.swap f give [g]).cons take, rfl⟩
  exact ⟨rfl, htasks, hnames, hmoved, runList_rearranged rfl htasks hnames hmoved 2 m⟩

end Run

end PipelineScript
