import PipelineScript.Proofs.Finding.Children
import PipelineScript.Proofs.Statement.Occurrences

/-! # Well-formed trees

What the rules ask of a tree, said of the statements that occur in it and of those that they occur
below. Main statement: nothing is found in a tree if and only if it is well-formed
(`Finding.all_eq_nil_iff_wellFormed`). No rule depends on what another one asks, so each of them is
settled on its own. -/

namespace PipelineScript

namespace Kind

/-- The kinds that stand in a conditional or in a switch only. -/
def IsArm : Kind → Prop
  | branch _ | otherwise | case_ _ | fallback => True
  | _ => False

/-- The children of a statement of the kind are arms. -/
def OwnsArms : Kind → Prop
  | conditional | switch _ => True
  | _ => False

def IsFunction : Kind → Prop
  | function .. => True
  | _ => False

/-- The name of the function that a statement of the kind defines. -/
def defined? : Kind → Option String
  | function name _ => some name
  | _ => none

end Kind

namespace Statement

/-- A list of statements in which each stands on its own. -/
inductive PlainList (nodes : List Statement) : List Statement → Prop
  | whole : PlainList nodes nodes
  | children {above : List Statement} {s : Statement} :
      Occurs nodes above s → ¬ s.kind.OwnsArms → PlainList nodes s.children

/-- A list of statements with the same parent, or with none. -/
inductive Siblings (nodes : List Statement) : List Statement → Prop
  | whole : Siblings nodes nodes
  | children {above : List Statement} {s : Statement} :
      Occurs nodes above s → Siblings nodes s.children

/-- Some arms of a first kind, then at most one of a second kind. -/
def ArmsOf (isHead isTail : Kind → Prop) (arms heads : List Statement) : Prop :=
  ∃ last : Option Statement, arms = heads ++ last.toList ∧ (∀ a ∈ heads, isHead a.kind) ∧
    ∀ a ∈ last, isTail a.kind

/-- The functions of the list have different names. -/
def DistinctFunctions (nodes : List Statement) : Prop :=
  (nodes.filterMap fun s => s.kind.defined?).Nodup

structure WellFormed (nodes : List Statement) : Prop where
  shape : ∀ above s, Occurs nodes above s → s.shape = s.kind.shape
  line : ∀ above s, Occurs nodes above s → s.shape = .line → s.children = []
  plain : ∀ list, PlainList nodes list → ∀ s ∈ list, ¬ s.kind.IsArm
  conditional : ∀ above s, Occurs nodes above s → s.kind = .conditional →
    ∃ branches, branches ≠ [] ∧
      ArmsOf (fun k => ∃ e, k = .branch e) (· = .otherwise) s.children branches
  switch : ∀ above s e, Occurs nodes above s → s.kind = .switch e →
    ∃ cases, ArmsOf (fun k => ∃ e, k = .case_ e) (· = .fallback) s.children cases
  /-- A jump stands in a loop, and no function stands between them. -/
  jump : ∀ above s, Occurs nodes above s →
    s.kind = .breakLoop ∨ s.kind = .breakAll ∨ s.kind = .continueLoop →
    ∃ inside loop outside, above = inside ++ loop :: outside ∧ loop.kind.isLoop ∧
      ∀ p ∈ inside, ¬ p.kind.IsFunction
  /-- A `return` stands in a function. -/
  give : ∀ above s value, Occurs nodes above s → s.kind = .returnValue value →
    ∃ p ∈ above, p.kind.IsFunction
  names : ∀ list, Siblings nodes list → DistinctFunctions list

end Statement

namespace Finding

open Statement

variable {nodes : List Statement} {s : Statement}

/-! ## Block structure -/

theorem ofArm?_eq_none_iff {k : Kind} : ArmOwner.ofArm? k = none ↔ ¬ k.IsArm := by
  cases k <;> simp [ArmOwner.ofArm?, Kind.IsArm]

theorem isHead_conditional_iff {k : Kind} :
    ArmOwner.conditional.isHead k ↔ ∃ e, k = .branch e := by
  cases k <;> simp [ArmOwner.isHead]

theorem isTail_conditional_iff {k : Kind} :
    ArmOwner.conditional.isTail k ↔ k = .otherwise := by
  cases k <;> simp [ArmOwner.isTail]

theorem isHead_switch_iff {k : Kind} : ArmOwner.switch.isHead k ↔ ∃ e, k = .case_ e := by
  cases k <;> simp [ArmOwner.isHead]

theorem isTail_switch_iff {k : Kind} : ArmOwner.switch.isTail k ↔ k = .fallback := by
  cases k <;> simp [ArmOwner.isTail]

/-- No arm is the first and the last kind of its owner at once. -/
theorem isHead_eq_false_of_isTail {owner : ArmOwner} {k : Kind} (h : owner.isTail k) :
    owner.isHead k = false := by
  cases owner <;> cases k <;> first | rfl | cases h

theorem ofArms_eq_nil_iff {owner : ArmOwner} {arms : List Statement} :
    ofArms owner arms = [] ↔
      (∃ heads, ArmsOf (owner.isHead ·) (owner.isTail ·) arms heads) ∧
        ∀ a ∈ arms, ofShape a = [] := by
  induction arms with
  | nil => simpa [ofArms] using ⟨[], none, by simp⟩
  | cons a rest ih =>
    rw [ofArms, List.append_eq_nil_iff, ih, List.forall_mem_cons]
    by_cases hh : owner.isHead a.kind
    · -- a head goes in front of the heads that follow
      rw [if_pos (by simp [hh])]
      have harms : (∃ heads, ArmsOf (owner.isHead ·) (owner.isTail ·) (a :: rest) heads) ↔
          ∃ heads, ArmsOf (owner.isHead ·) (owner.isTail ·) rest heads := by
        constructor
        · rintro ⟨heads, last, he, hheads, hlast⟩
          cases heads with
          | nil =>
            cases last with
            | none => cases he
            | some b =>
              cases he
              simp [isHead_eq_false_of_isTail (hlast a rfl)] at hh
          | cons b heads =>
            cases he
            exact ⟨heads, last, rfl, (List.forall_mem_cons.mp hheads).2, hlast⟩
        · rintro ⟨heads, last, rfl, hheads, hlast⟩
          exact ⟨a :: heads, last, rfl, List.forall_mem_cons.mpr ⟨hh, hheads⟩, hlast⟩
      rw [harms]
      exact and_left_comm
    · by_cases ht : owner.isTail a.kind ∧ rest = []
      · obtain ⟨ht, rfl⟩ := ht
        rw [if_pos (by simp [ht])]
        have harms : ∃ heads, ArmsOf (owner.isHead ·) (owner.isTail ·) [a] heads :=
          ⟨[], some a, rfl, List.forall_mem_nil _, fun b hb => by cases hb; exact ht⟩
        have hnil : ∃ heads, ArmsOf (owner.isHead ·) (owner.isTail ·) [] heads :=
          ⟨[], none, rfl, List.forall_mem_nil _, fun b hb => by cases hb⟩
        simp [harms, hnil]
      · rw [if_neg (by simpa [hh] using ht)]
        have hfound : (if owner.isTail a.kind then [(⟨a.line, .tailNotLast owner⟩ : Finding)]
            else [⟨a.line, .foreignArm owner a.kind⟩]) ≠ [] := by split <;> simp
        refine iff_of_false (fun h => hfound h.1) ?_
        rintro ⟨⟨heads, last, he, hheads, hlast⟩, -⟩
        cases heads with
        | nil =>
          cases last with
          | none => cases he
          | some b => cases he; exact ht ⟨hlast a rfl, rfl⟩
        | cons b heads => cases he; exact hh (hheads a (by simp))

/-- A statement of the right shape with children of the right kinds. -/
structure Shaped (s : Statement) : Prop where
  shape : s.shape = s.kind.shape
  line : s.shape = .line → s.children = []
  plain : ¬ s.kind.OwnsArms → ∀ t ∈ s.children, ¬ t.kind.IsArm
  conditional : s.kind = .conditional → ∃ branches, branches ≠ [] ∧
    ArmsOf (fun k => ∃ e, k = .branch e) (· = .otherwise) s.children branches
  switch : ∀ e, s.kind = .switch e → ∃ cases,
    ArmsOf (fun k => ∃ e, k = .case_ e) (· = .fallback) s.children cases

/-- With arms at all, a conditional starts with a branch exactly if there is a branch. -/
theorem startsWithBranch_iff {arms heads : List Statement}
    (h : ArmsOf (fun k => ∃ e, k = .branch e) (· = .otherwise) arms heads) :
    startsWithBranch arms ↔ heads ≠ [] := by
  obtain ⟨last, rfl, hheads, hlast⟩ := h
  cases heads with
  | nil =>
    cases last with
    | none => simp [startsWithBranch]
    | some a => simp [startsWithBranch, hlast a rfl, ArmOwner.isHead]
  | cons a heads =>
    obtain ⟨e, he⟩ := hheads a (by simp)
    simp [startsWithBranch, he, ArmOwner.isHead]

/-- Block structure is a matter of each statement and its children. -/
theorem ofShape_eq_nil_iff : ofShape s = [] ↔ Shaped s ∧ ∀ t ∈ s.children, ofShape t = [] := by
  obtain ⟨kind, shape, line, children⟩ := s
  rw [ofShape.eq_def]
  dsimp only
  by_cases hs : shape = kind.shape
  · rw [if_neg (not_not_intro hs)]
    subst hs
    cases kind with
    | conditional =>
      rw [List.append_eq_nil_iff, ofArms_eq_nil_iff]
      simp only [isHead_conditional_iff, isTail_conditional_iff]
      constructor
      · rintro ⟨hstart, ⟨heads, harms⟩, hall⟩
        have hne := (startsWithBranch_iff harms).mp (by simpa using hstart)
        exact ⟨⟨rfl, by simp [Kind.shape], by simp [Kind.OwnsArms], fun _ => ⟨heads, hne, harms⟩,
          by simp⟩, hall⟩
      · rintro ⟨hshaped, hall⟩
        obtain ⟨heads, hne, harms⟩ := hshaped.conditional rfl
        exact ⟨by simpa using (startsWithBranch_iff harms).mpr hne, ⟨heads, harms⟩, hall⟩
    | switch e =>
      rw [ofArms_eq_nil_iff]
      simp only [isHead_switch_iff, isTail_switch_iff]
      constructor
      · rintro ⟨harms, hall⟩
        exact ⟨⟨rfl, by simp [Kind.shape], by simp [Kind.OwnsArms], by simp, fun _ _ => harms⟩,
          hall⟩
      · rintro ⟨hshaped, hall⟩
        exact ⟨hshaped.switch e rfl, hall⟩
    | branch | otherwise | case_ | fallback | forLoop | whileLoop | function =>
      simp only [Kind.shape, ofShapes_eq_nil_iff, ofArm?_eq_none_iff]
      constructor
      · intro h
        exact ⟨⟨rfl, by simp, fun _ t ht => (h t ht).1, by simp, by simp⟩,
          fun t ht => (h t ht).2⟩
      · rintro ⟨hshaped, hall⟩ t ht
        exact ⟨hshaped.plain (by simp [Kind.OwnsArms]) t ht, hall t ht⟩
    | _ =>
      simp only [Kind.shape]
      constructor
      · intro h
        have hnil : children = [] := by simpa using h
        subst hnil
        exact ⟨⟨rfl, fun _ => rfl, by simp, by simp, by simp⟩, by simp⟩
      · rintro ⟨hshaped, -⟩
        simp [show children = [] from hshaped.line rfl]
  · rw [if_pos hs]
    exact iff_of_false (by simp) fun h => hs h.1.shape

theorem ofShapes_eq_nil_iff_occurs :
    ofShapes nodes = [] ↔ (∀ s ∈ nodes, ¬ s.kind.IsArm) ∧
      ∀ above s, Occurs nodes above s → Shaped s := by
  rw [ofShapes_eq_nil_iff, ← forall_occurs_iff (fun _ s => ofShape s = [])
    (fun _ s => Shaped s) (fun u _ => u) (fun _ _ => ofShape_eq_nil_iff) ()]
  simp only [ofArm?_eq_none_iff]
  exact ⟨fun h => ⟨fun s hs => (h s hs).1, fun s hs => (h s hs).2⟩,
    fun h s hs => ⟨h.1 s hs, h.2 s hs⟩⟩

/-! ## Jumps -/

theorem ofJump_eq_nil_iff {inLoop : Bool} :
    ofJump inLoop s = [] ↔ (s.kind.isLoopControl → inLoop = true) ∧
      ∀ t ∈ s.children, ofJump (bodyInLoop inLoop s.kind) t = [] := by
  obtain ⟨kind, shape, line, children⟩ := s
  rw [ofJump, List.append_eq_nil_iff, ofJumps_eq_nil_iff]
  refine and_congr_left fun _ => ?_
  cases kind.isLoopControl <;> cases inLoop <;> simp

theorem isLoopControl_iff {k : Kind} :
    k.isLoopControl ↔ k = .breakLoop ∨ k = .breakAll ∨ k = .continueLoop := by
  cases k <;> simp [Kind.isLoopControl]

/-- There is a loop to jump out of if one is met before a function, from the inside outward. -/
theorem bodyInLoop_above_iff {above : List Statement} :
    above.foldr (fun p inLoop => bodyInLoop inLoop p.kind) false = true ↔
      ∃ inside loop outside, above = inside ++ loop :: outside ∧ loop.kind.isLoop ∧
        ∀ p ∈ inside, ¬ p.kind.IsFunction := by
  induction above with
  | nil => simp
  | cons p above ih =>
    rw [List.foldr_cons]
    -- the innermost one decides, unless it is neither a loop nor a function
    by_cases hf : p.kind.IsFunction
    · have hout : bodyInLoop (above.foldr (fun p inLoop => bodyInLoop inLoop p.kind) false) p.kind
          = false := by
        cases hk : p.kind <;> simp [hk, Kind.IsFunction] at hf
        rfl
      refine iff_of_false (by simp [hout]) ?_
      rintro ⟨inside, loop, outside, he, hl, hin⟩
      cases inside with
      | nil =>
        cases he
        cases hk : p.kind <;> simp [hk, Kind.IsFunction, Kind.isLoop] at hf hl
      | cons q inside => cases he; exact hin p (by simp) hf
    · have hor : bodyInLoop (above.foldr (fun p inLoop => bodyInLoop inLoop p.kind) false) p.kind
          = (p.kind.isLoop || above.foldr (fun p inLoop => bodyInLoop inLoop p.kind) false) := by
        cases hk : p.kind <;> first | rfl | simp [hk, Kind.IsFunction] at hf
      rw [hor, Bool.or_eq_true, ih]
      constructor
      · rintro (hl | ⟨inside, loop, outside, rfl, hl, hin⟩)
        · exact ⟨[], p, above, rfl, hl, List.forall_mem_nil _⟩
        · exact ⟨p :: inside, loop, outside, rfl, hl, List.forall_mem_cons.mpr ⟨hf, hin⟩⟩
      · rintro ⟨inside, loop, outside, he, hl, hin⟩
        cases inside with
        | nil => cases he; exact .inl hl
        | cons q inside =>
          cases he
          exact .inr ⟨inside, loop, outside, rfl, hl, (List.forall_mem_cons.mp hin).2⟩

theorem ofJumps_eq_nil_iff_occurs :
    ofJumps false nodes = [] ↔ ∀ above s, Occurs nodes above s →
      s.kind = .breakLoop ∨ s.kind = .breakAll ∨ s.kind = .continueLoop →
      ∃ inside loop outside, above = inside ++ loop :: outside ∧ loop.kind.isLoop ∧
        ∀ p ∈ inside, ¬ p.kind.IsFunction := by
  rw [ofJumps_eq_nil_iff, forall_occurs_iff (fun inLoop s => ofJump inLoop s = [])
    (fun inLoop s => s.kind.isLoopControl → inLoop = true)
    (fun inLoop s => bodyInLoop inLoop s.kind) (fun _ _ => ofJump_eq_nil_iff) false]
  simp only [isLoopControl_iff, bodyInLoop_above_iff]

/-! ## Returns -/

theorem ofReturn_eq_nil_iff {inFunction : Bool} :
    ofReturn inFunction s = [] ↔ ((∃ value, s.kind = .returnValue value) → inFunction = true) ∧
      ∀ t ∈ s.children, ofReturn (inFunction || s.kind.defined?.isSome) t = [] := by
  obtain ⟨kind, shape, line, children⟩ := s
  rw [ofReturn.eq_def]
  cases kind <;> cases inFunction <;> simp [ofReturns_eq_nil_iff, Kind.defined?]

theorem isFunction_iff {k : Kind} : k.IsFunction ↔ k.defined?.isSome := by
  cases k <;> simp [Kind.IsFunction, Kind.defined?]

theorem inFunction_above_iff {above : List Statement} :
    above.foldr (fun p inFunction => inFunction || p.kind.defined?.isSome) false = true ↔
      ∃ p ∈ above, p.kind.IsFunction := by
  induction above with
  | nil => simp
  | cons p above ih =>
    rw [List.foldr_cons, Bool.or_eq_true, ih, ← isFunction_iff]
    simp [or_comm]

theorem ofReturns_eq_nil_iff_occurs :
    ofReturns false nodes = [] ↔ ∀ above s value, Occurs nodes above s →
      s.kind = .returnValue value → ∃ p ∈ above, p.kind.IsFunction := by
  rw [ofReturns_eq_nil_iff,
    forall_occurs_iff (fun inFunction s => ofReturn inFunction s = [])
      (fun inFunction s => (∃ value, s.kind = .returnValue value) → inFunction = true)
      (fun inFunction s => inFunction || s.kind.defined?.isSome)
      (fun _ _ => ofReturn_eq_nil_iff) false]
  simp only [inFunction_above_iff]
  constructor
  · exact fun h above s value hs hk => h above s hs ⟨value, hk⟩
  · rintro h above s hs ⟨value, hk⟩
    exact h above s value hs hk

/-! ## Functions -/

theorem ofName_eq_nil_iff {seen : Table Nat} :
    ofName seen s = [] ↔ ∀ name ∈ s.kind.defined?, Table.get? seen name = none := by
  obtain ⟨kind, shape, line, children⟩ := s
  cases kind with
  | function name params =>
    simp only [ofName, Kind.defined?]
    cases h : Table.get? seen name <;> simp [h]
  | _ => simp [ofName, Kind.defined?]

theorem get?_namesAfter {seen : Table Nat} {name : String} :
    Table.get? (namesAfter seen s) name = none ↔
      Table.get? seen name = none ∧ s.kind.defined? ≠ some name := by
  obtain ⟨kind, shape, line, children⟩ := s
  cases kind with
  | function other params =>
    simp only [namesAfter, Kind.defined?, Table.get?_insert]
    split <;> simp_all
  | _ => simp [namesAfter, Kind.defined?]

theorem ofNames_eq_nil_iff {seen : Table Nat} :
    ofNames seen nodes = [] ↔
      (∀ name ∈ nodes.filterMap fun s => s.kind.defined?, Table.get? seen name = none) ∧
        DistinctFunctions nodes ∧ ∀ s ∈ nodes, ofBodyNames s = [] := by
  induction nodes generalizing seen with
  | nil => simp [ofNames, DistinctFunctions]
  | cons s rest ih =>
    rw [ofNames, List.append_eq_nil_iff, List.append_eq_nil_iff, ofName_eq_nil_iff, ih,
      List.forall_mem_cons, DistinctFunctions, DistinctFunctions]
    simp only [get?_namesAfter]
    cases hk : s.kind.defined? with
    | none =>
      rw [List.filterMap_cons_none (f := fun s : Statement => s.kind.defined?) hk]
      simp only [Option.mem_def, reduceCtorEq, false_imp_iff, implies_true, true_and, ne_eq,
        not_false_eq_true, and_true]
      grind
    | some name =>
      rw [List.filterMap_cons_some (f := fun s : Statement => s.kind.defined?) hk, List.nodup_cons,
        List.forall_mem_cons]
      simp only [Option.mem_def, Option.some.injEq, forall_eq']
      grind

theorem ofBodyNames_eq_nil_iff :
    ofBodyNames s = [] ↔ DistinctFunctions s.children ∧
      ∀ t ∈ s.children, ofBodyNames t = [] := by
  obtain ⟨kind, shape, line, children⟩ := s
  rw [ofBodyNames, ofNames_eq_nil_iff]
  simp [Table.get?]

theorem ofNames_eq_nil_iff_occurs :
    ofNames [] nodes = [] ↔ ∀ list, Siblings nodes list → DistinctFunctions list := by
  rw [ofNames_eq_nil_iff, forall_occurs_iff (fun _ s => ofBodyNames s = [])
    (fun _ s => DistinctFunctions s.children) (fun u _ => u)
    (fun _ _ => ofBodyNames_eq_nil_iff) ()]
  constructor
  · rintro ⟨-, hwhole, hchildren⟩ list (_ | hs)
    · exact hwhole
    · exact hchildren _ _ hs
  · exact fun h => ⟨fun _ _ => rfl, h nodes .whole, fun _ _ hs => h _ (.children hs)⟩

/-! ## Main statement -/

/-- Nothing is found in a list of statements if and only if its tree is well-formed. -/
theorem all_eq_nil_iff_wellFormed (nodes : List Statement) : all nodes = [] ↔ WellFormed nodes := by
  rw [all_eq_nil_iff, ofShapes_eq_nil_iff_occurs, ofJumps_eq_nil_iff_occurs,
    ofReturns_eq_nil_iff_occurs, ofNames_eq_nil_iff_occurs]
  constructor
  · rintro ⟨⟨htop, hshaped⟩, hjump, hgive, hnames⟩
    refine
      { shape := fun above s hs => (hshaped above s hs).shape
        line := fun above s hs => (hshaped above s hs).line
        plain := ?_
        conditional := fun above s hs => (hshaped above s hs).conditional
        switch := fun above s e hs => (hshaped above s hs).switch e
        jump := hjump
        give := hgive
        names := hnames }
    rintro list (_ | ⟨hs, hk⟩)
    · exact htop
    · exact (hshaped _ _ hs).plain hk
  · intro h
    refine ⟨⟨h.plain nodes .whole, fun above s hs => ?_⟩, h.jump, h.give, h.names⟩
    exact ⟨h.shape above s hs, h.line above s hs, fun hk => h.plain _ (.children hs hk),
      h.conditional above s hs, fun e => h.switch above s e hs⟩

end Finding

end PipelineScript
