import PipelineScript.Finding.Rules

/-! # Statements without findings

What a rule finds in a list is what it finds in the statements of the list. If it finds nothing in
a statement, it finds nothing in what stands below it, which may be seen in another light there: in
a loop, in a function, as an arm. -/

namespace PipelineScript.Finding

/-! ## Lists -/

theorem ofShapes_eq_nil_iff {nodes : List Statement} :
    ofShapes nodes = [] ↔ ∀ s ∈ nodes, ArmOwner.ofArm? s.kind = none ∧ ofShape s = [] := by
  induction nodes with
  | nil => simp [ofShapes]
  | cons s rest ih =>
    rw [ofShapes, List.append_eq_nil_iff, ih, List.forall_mem_cons]
    cases h : ArmOwner.ofArm? s.kind <;> simp

theorem ofJumps_eq_nil_iff {inLoop : Bool} {nodes : List Statement} :
    ofJumps inLoop nodes = [] ↔ ∀ s ∈ nodes, ofJump inLoop s = [] := by
  induction nodes with
  | nil => simp [ofJumps]
  | cons s rest ih => rw [ofJumps, List.append_eq_nil_iff, ih, List.forall_mem_cons]

theorem ofReturns_eq_nil_iff {inFunction : Bool} {nodes : List Statement} :
    ofReturns inFunction nodes = [] ↔ ∀ s ∈ nodes, ofReturn inFunction s = [] := by
  induction nodes with
  | nil => simp [ofReturns]
  | cons s rest ih => rw [ofReturns, List.append_eq_nil_iff, ih, List.forall_mem_cons]

/-- Arms without findings are arms of their owner. -/
theorem ofArms_eq_nil {owner : ArmOwner} {arms : List Statement} (h : ofArms owner arms = []) :
    ∀ a ∈ arms, ArmOwner.ofArm? a.kind = some owner ∧ ofShape a = [] := by
  induction arms with
  | nil => simp
  | cons a rest ih =>
    rw [ofArms, List.append_eq_nil_iff] at h
    obtain ⟨ha, hrest⟩ := h
    rw [List.forall_mem_cons]
    refine ⟨?_, ih hrest⟩
    split at ha
    · rename_i hk
      refine ⟨?_, ha⟩
      cases owner <;> cases hkind : a.kind <;>
        simp_all [ArmOwner.isHead, ArmOwner.isTail, ArmOwner.ofArm?]
    · split at ha <;> simp at ha

/-! ## What stands below a statement -/

variable {s : Statement}

/-- Below a statement whose children are not arms. -/
theorem ofShapes_children (h : ofShape s = []) (hb : s.kind.shape = .block)
    (hc : s.kind ≠ .conditional) (hs : ∀ e, s.kind ≠ .switch e) : ofShapes s.children = [] := by
  obtain ⟨kind, shape, line, children⟩ := s
  unfold ofShape at h
  split at h
  · cases h
  · cases kind <;> simp_all [Kind.shape]

/-- Below a statement whose children are arms. -/
theorem ofArms_children (h : ofShape s = [])
    (hk : s.kind = .conditional ∨ ∃ e, s.kind = .switch e) :
    ∃ owner, ofArms owner s.children = [] := by
  obtain ⟨kind, shape, line, children⟩ := s
  unfold ofShape at h
  split at h
  · cases h
  · obtain rfl | ⟨e, rfl⟩ := hk
    · exact ⟨_, (List.append_eq_nil_iff.mp h).2⟩
    · exact ⟨_, h⟩

theorem ofJumps_children {inLoop : Bool} (h : ofJump inLoop s = []) :
    ofJumps (bodyInLoop inLoop s.kind) s.children = [] := by
  obtain ⟨kind, shape, line, children⟩ := s
  rw [ofJump, List.append_eq_nil_iff] at h
  exact h.2

/-- A jump has a loop to jump out of. -/
theorem inLoop_of_ofJump {inLoop : Bool} (h : ofJump inLoop s = []) (hk : s.kind.isLoopControl) :
    inLoop = true := by
  obtain ⟨kind, shape, line, children⟩ := s
  rw [ofJump, List.append_eq_nil_iff] at h
  cases inLoop
  · simp [show kind.isLoopControl = true from hk] at h
  · rfl

/-- A `return` stands in a function. -/
theorem inFunction_of_ofReturn {inFunction : Bool} {value : Option SourceExpr}
    (h : ofReturn inFunction s = []) (hk : s.kind = .returnValue value) : inFunction = true := by
  obtain ⟨kind, shape, line, children⟩ := s
  cases hk
  cases inFunction
  · simp [ofReturn] at h
  · rfl

theorem ofReturns_children {inFunction : Bool} (h : ofReturn inFunction s = []) :
    ofReturns inFunction s.children = [] ∨ ∃ name params, s.kind = .function name params := by
  obtain ⟨kind, shape, line, children⟩ := s
  cases kind <;> simp_all [ofReturn]
  cases inFunction <;> simp_all

theorem ofReturns_body {inFunction : Bool} {name : String} {params : List String}
    (h : ofReturn inFunction s = []) (hk : s.kind = .function name params) :
    ofReturns true s.children = [] := by
  obtain ⟨kind, shape, line, children⟩ := s
  cases hk
  exact h

/-- No rule finds anything. -/
theorem all_eq_nil_iff {nodes : List Statement} :
    all nodes = [] ↔ ofShapes nodes = [] ∧ ofJumps false nodes = [] ∧
      ofReturns false nodes = [] ∧ ofNames [] nodes = [] := by
  simp [all, Rule.all, ofRule]

end PipelineScript.Finding
