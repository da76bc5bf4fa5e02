import PipelineScript.Proofs.Context.Functions
import PipelineScript.Proofs.Context.Scopes
import PipelineScript.Proofs.Finding.Children
import PipelineScript.Proofs.Run.Discipline
import PipelineScript.Proofs.Run.Watching

/-! # Where jumps may go

A script without findings never jumps out of what it stands in. The discipline is that of the rules:
jumps run in loops only, `return` in functions only, arms in their statement only; and whatever name
of a function is in sight, it stands for a definition whose body is without findings. Main
statement: `runs_in_order`. -/

namespace PipelineScript

/-- The loops of the current function around a statement. -/
structure Nesting where
  inFunction : Bool
  loops : Nat

namespace Nesting

/-- The body of a function, outside of its loops. -/
def body : Nesting := ⟨true, 0⟩

/-- Nothing is found in a statement that stands there. -/
def Sound (k : Nesting) (s : Statement) : Prop :=
  ArmOwner.ofArm? s.kind = none ∧ Finding.ofShape s = [] ∧
    Finding.ofJump (decide (0 < k.loops)) s = [] ∧ Finding.ofReturn k.inFunction s = []

def Allows (k : Nesting) : Flow → Prop
  | .normal => True
  | .returned _ => k.inFunction = true
  | .broken | .brokenAll | .continued => 0 < k.loops

variable {k : Nesting} {s t : Statement}

theorem sound_of_lists {nodes : List Statement} (h : Finding.ofShapes nodes = [])
    (hj : Finding.ofJumps (decide (0 < k.loops)) nodes = [])
    (hr : Finding.ofReturns k.inFunction nodes = []) : ∀ t ∈ nodes, k.Sound t := by
  intro t ht
  obtain ⟨ha, hs⟩ := Finding.ofShapes_eq_nil_iff.mp h t ht
  exact ⟨ha, hs, Finding.ofJumps_eq_nil_iff.mp hj t ht, Finding.ofReturns_eq_nil_iff.mp hr t ht⟩

theorem Sound.body_loop (h : k.Sound s) (hk : s.kind.isLoop) :
    ∀ t ∈ s.children, Nesting.Sound { k with loops := k.loops + 1 } t := by
  obtain ⟨-, hs, hj, hr⟩ := h
  have hin : Finding.bodyInLoop (decide (0 < k.loops)) s.kind = true := by
    cases hkind : s.kind <;> simp_all [Kind.isLoop, Finding.bodyInLoop]
  refine sound_of_lists (Finding.ofShapes_children hs ?_ ?_ ?_) ?_ ?_
  · cases hkind : s.kind <;> simp_all [Kind.isLoop, Kind.shape]
  · intro e; simp [e, Kind.isLoop] at hk
  · intro e hkind; simp [hkind, Kind.isLoop] at hk
  · rw [← hin.trans (decide_eq_true (Nat.succ_pos k.loops)).symm]
    exact Finding.ofJumps_children hj
  · obtain hc | ⟨name, params, hkind⟩ := Finding.ofReturns_children hr
    · exact hc
    · simp [hkind, Kind.isLoop] at hk

theorem Sound.body_function {name : String} {params : List String} (h : k.Sound s)
    (hk : s.kind = .function name params) : ∀ t ∈ s.children, body.Sound t := by
  obtain ⟨-, hs, hj, hr⟩ := h
  refine sound_of_lists (Finding.ofShapes_children hs ?_ ?_ ?_) ?_ ?_
  · rw [hk]; rfl
  · rw [hk]; simp
  · rw [hk]; simp
  · have := Finding.ofJumps_children hj
    rwa [hk] at this
  · exact Finding.ofReturns_body hr hk

/-- Neither the statement nor its arms count as loops or functions. -/
theorem Sound.body_arm {a : Statement} (h : k.Sound s)
    (hk : s.kind = .conditional ∨ ∃ e, s.kind = .switch e) (ha : a ∈ s.children) :
    ∀ t ∈ a.children, k.Sound t := by
  obtain ⟨-, hs, hj, hr⟩ := h
  obtain ⟨owner, harms⟩ := Finding.ofArms_children hs hk
  obtain ⟨harm, hsa⟩ := Finding.ofArms_eq_nil harms a ha
  have hja : Finding.ofJump (decide (0 < k.loops)) a = [] := by
    have hc := Finding.ofJumps_children hj
    have hb : Finding.bodyInLoop (decide (0 < k.loops)) s.kind = decide (0 < k.loops) := by
      obtain e | ⟨_, e⟩ := hk <;> rw [e] <;> rfl
    rw [hb] at hc
    exact Finding.ofJumps_eq_nil_iff.mp hc a ha
  have hra : Finding.ofReturn k.inFunction a = [] := by
    obtain hc | ⟨name, params, e⟩ := Finding.ofReturns_children hr
    · exact Finding.ofReturns_eq_nil_iff.mp hc a ha
    · simp [e] at hk
  refine sound_of_lists (Finding.ofShapes_children hsa ?_ ?_ ?_) ?_ ?_
  · cases e : a.kind <;> simp_all [ArmOwner.ofArm?, Kind.shape]
  · intro e; simp [e, ArmOwner.ofArm?] at harm
  · intro _ e; simp [e, ArmOwner.ofArm?] at harm
  · have hc := Finding.ofJumps_children hja
    have hb : Finding.bodyInLoop (decide (0 < k.loops)) a.kind = decide (0 < k.loops) := by
      cases e : a.kind <;> simp_all [ArmOwner.ofArm?, Finding.bodyInLoop, Kind.isLoop]
    rwa [hb] at hc
  · obtain hc | ⟨name, params, e⟩ := Finding.ofReturns_children hra
    · exact hc
    · simp [e, ArmOwner.ofArm?] at harm

end Nesting

/-- A definition of a function with a body in which nothing is found. -/
def SoundDefinition (f : Statement) : Prop :=
  (∃ name params, f.kind = .function name params) ∧ ∀ t ∈ f.children, Nesting.body.Sound t

/-- No jump goes further, and nothing stops for a stray statement. -/
def EndsBody : Except Halt Flow → Prop
  | .ok .normal | .ok (.returned _) => True
  | .ok _ => False
  | .error h => ¬ h.IsStray

/-- Jumps stay in the loops of their function. -/
def Event.Proper : Event → Prop
  | .ran _ began outcome => began.loopDepth = 0 → EndsBody outcome
  | .called _ outcome => EndsBody outcome
  | .moved _ | .wrote .. => True

namespace Run

/-- The discipline of scripts without findings. -/
def ordering : Discipline Nesting where
  inLoop k := { k with loops := k.loops + 1 }
  inFunction _ := .body
  fits := Nesting.Sound
  holds k _ m := m.context.loopDepth = k.loops ∧ m.context.Knows SoundDefinition ∧
    m.Tells Event.Proper
  allows := Nesting.Allows
  permits h := ¬ h.IsStray

variable {k : Nesting} {b : Bool}

theorem endsBody_of_outcome {outcome : Except Halt Flow} (hk : k.loops = 0)
    (h : ordering.beside.Outcome k b outcome outcome) : EndsBody outcome := by
  rcases outcome with halt | flow
  · obtain ⟨-, hpermits⟩ : ordering.beside.halts halt halt := by cases h; assumption
    exact hpermits
  · have hallows : k.Allows flow := by cases h; assumption
    cases flow <;> simp_all [Nesting.Allows, EndsBody]

theorem ordering_moveTo {m : Machine} {c : Context} (hl : c.loopDepth = k.loops)
    (hf : c.Knows SoundDefinition) (hm : m.Tells Event.Proper) :
    ordering.holds k true (m.moveTo c) :=
  ⟨hl, hf, hm.moveTo trivial⟩

theorem ordering_write {s : Statement} {m : Machine} {c : Context}
    (hl : c.loopDepth = k.loops) (hf : c.Knows SoundDefinition) (hm : m.Tells Event.Proper) :
    ordering.holds k true (m.write s c) :=
  ⟨hl, hf, hm.write trivial⟩

theorem ordering_shapes : ordering.beside.Shapes where
  own _ _ := trivial
  armOwn _ _ _ _ := trivial
  arm hs hk ha ht := hs.body_arm hk ha _ ht
  body hs hk ht := hs.body_loop hk _ ht

theorem ordering_flows : ordering.beside.Flows where
  normal _ := trivial
  jump hs hk := by
    have hin := of_decide_eq_true (Finding.inLoop_of_ofJump hs.2.2.1 hk)
    exact ⟨hin, hin, hin⟩
  give hs hk _ := Finding.inFunction_of_ofReturn hs.2.2.2 hk
  block h := h
  loopReturned h := h
  loopBrokenAll {_ k m _} hm h := by
    have hl : m.context.loopDepth = k.loops + 1 := hm.2.1
    show 0 < k.loops
    omega
  returned _ := trivial

theorem ordering_kept (sv : Services) : ordering.Kept sv where
  shapes := ordering_shapes
  flows := ordering_flows
  values := .trivial fun _ => trivial
  quiet hr hm := ⟨hr.context ▸ hm.1, hr.context ▸ hm.2.1, hm.2.2.of_events hr.events⟩
  stop := id
  ordinary h := h
  stray hs ha := absurd hs.1 ha
  importPath {k s m path localName} _ _ hm :=
    ordering_write ((Context.loopDepth_modifyCurrent _ _).trans hm.1)
      (((hm.2.1.of_scopes fun t ht => .inr ⟨t, ht, rfl⟩ :
        (m.context.addImport localName path).Knows _)).declare _ _ _) hm.2.2
  declare _ _ _ _ hgave :=
    have hm := hgave.holds
    ordering_write ((Context.loopDepth_modifyCurrent _ _).trans hm.1) (hm.2.1.declare _ _ _) hm.2.2
  assign {_ _ m name _ v _} _ _ _ _ hgave :=
    have hm := hgave.holds
    ordering_write ((Context.SameOutside.assign m.context name v).loopDepth.trans hm.1)
      (hm.2.1.assign _ _) hm.2.2
  taskBlock {_ _ m target _ t} _ _ _ hgave :=
    have hm := hgave.holds
    ordering_write ((Context.SameOutside.assign m.context target (.map t)).loopDepth.trans hm.1)
      (hm.2.1.assign _ _) hm.2.2
  exportValue _ _ _ hgave :=
    have hm := hgave.holds
    ordering_write hm.1 (hm.2.1.setExport _) hm.2.2
  ended _ _ hm := hm
  hoist {k m nodes} hn hm := ordering_moveTo
    ((Context.SameOutside.hoist nodes m.context).loopDepth.trans hm.1)
    (hm.2.1.hoist fun s hs name params hk => ⟨⟨name, params, hk⟩, (hn s hs).body_function hk⟩) hm.2.2
  push hm := ordering_moveTo hm.1 (hm.2.1.push _) hm.2.2
  pop hm hm' :=
    ordering_moveTo ((Context.loopDepth_popTo _ _).trans hm'.1) (hm'.2.1.popTo _) hm'.2.2
  enterLoop hm := ordering_moveTo (congrArg (· + 1) hm.1) hm.2.1 hm.2.2
  exitLoop hm hm' := ordering_moveTo (congrArg (· - 1) hm'.1) hm'.2.1 hm'.2.2
  item _ _ _ hm :=
    ordering_moveTo ((Context.loopDepth_modifyCurrent _ _).trans hm.1) (hm.2.1.declare _ _ _) hm.2.2
  callable hm hf := by
    obtain ⟨⟨name, params, hk⟩, hc⟩ := hm.2.1.of_function? hf
    exact ⟨trivial, fun _ _ _ => hc, fun h => absurd hk (h name params)⟩
  enterCall {k m f name params args} _ _ _ hm := by
    have hf : ordering.holds ⟨k.inFunction, 0⟩ true (m.moveTo m.context.enterFunction) :=
      ordering_moveTo rfl hm.2.1 hm.2.2
    have hp := ordering_moveTo (c := (m.context.enterFunction).push .function) hf.1
      (hf.2.1.push _) hf.2.2
    exact ordering_moveTo ((Context.SameOutside.bindParams params args _).loopDepth.trans hp.1)
      (hp.2.1.bindParams params args) hp.2.2
  leaveCall {k _ m m'} hm hm' := by
    have hp := ordering_moveTo ((Context.loopDepth_popTo m'.context m.context.depth).trans hm'.1)
      (hm'.2.1.popTo _) hm'.2.2
    exact ordering_moveTo (c := (m'.context.popTo m.context.depth).exitFunction _) hm.1 hp.2.1
      hp.2.2
  ran _ hm ho hm' := ⟨hm'.1, hm'.2.1, hm'.2.2.conclude fun h0 =>
    endsBody_of_outcome (hm.1.symm.trans h0) ho⟩
  called ho hm := ⟨hm.1, hm.2.1, hm.2.2.note (endsBody_of_outcome rfl ho)⟩

/-- A script without findings ends normally or stops for a reason that it has itself, and so does
all that it runs outside of loops: no jump leaves the top level, the body of a function or its
outermost loop. -/
theorem runs_in_order {nodes : List Statement} (h : Finding.all nodes = []) (sv : Services)
    (host : HostValues) (memo : Memo) (monitor : Option Monitor) :
    let run := runList sv (callFunction sv maxCallDepth) nodes
    let m := start host memo monitor
    (∀ flow, (run.run m).1 = .ok flow → flow = .normal) ∧
    (∀ halt, (run.run m).1 = .error halt → ¬ halt.IsStray) ∧
    run.run m = ((run.run m.watched).1, (run.run m.watched).2.unwatched) ∧
    ∃ events, (run.run m.watched).2.events = some events ∧
      (∀ f outcome, .called f outcome ∈ events → EndsBody outcome) ∧
      ∀ s began outcome, .ran s began outcome ∈ events → began.loopDepth = 0 →
        EndsBody outcome := by
  intro run m
  obtain ⟨hs, hj, hr, -⟩ := Finding.all_eq_nil_iff.mp h
  have hn : ∀ s ∈ nodes, ordering.fits ⟨false, 0⟩ s := Nesting.sound_of_lists hs hj hr
  have hm : ordering.holds ⟨false, 0⟩ true m.watched :=
    ⟨rfl, Context.knows_ofHost host, Machine.tells_watched m⟩
  have hw : run.run m = ((run.run m.watched).1, (run.run m.watched).2.unwatched) :=
    run_unwatched sv maxCallDepth nodes m.watched
  obtain ⟨⟨-, -, events, he, hp⟩, ha, hh⟩ :=
    (ordering_kept sv).keeps_runList maxCallDepth hn m.watched hm
  rw [hw]
  refine ⟨fun flow hf => ?_, hh, rfl, events, he, fun _ _ hc => hp _ hc, fun _ _ _ hc => hp _ hc⟩
  have := ha flow hf
  cases flow <;> simp_all [Nesting.Allows, ordering]

/-- A call of a function whose `breakAll` stands two loops deep. -/
theorem runs_in_order_breakAll :
    let nodes : List Statement := [
      .ofBlock (.function "f" []) 1 [
        .ofBlock (.whileLoop ⟨"true"⟩) 2 [
          .ofBlock (.whileLoop ⟨"true"⟩) 3 [
            .ofBlock .conditional 4 [.ofBlock (.branch ⟨"true"⟩) 4 [.ofLine .breakAll 5]]]],
        .ofLine (.returnValue (some ⟨"1"⟩)) 9],
      .ofLine (.call ⟨"f", []⟩) 11]
    let run := runList (.bare 3) (callFunction (.bare 3) maxCallDepth) nodes
    Finding.all nodes = [] ∧
      ∀ flow, (run.run (start [] .standard none)).1 = .ok flow → flow = .normal :=
  ⟨by decide, (runs_in_order (by decide) (.bare 3) [] .standard none).1⟩

end Run

end PipelineScript
