import Mathlib
import PipelineScript.Proofs.Finding.WellFormed
import PipelineScript.Proofs.Statement.Places
import PipelineScript.Proofs.Statement.ReadPrintable

/-! # The shape of a tree that was read

The reader builds trees of the right shape, and leaves one question to the rule of block structure:
it takes the arms of a switch in any order. Main statement: on a tree that was read, the rule finds
default arms that are followed by another arm, and it finds nothing exactly if there are none
(`Finding.blockStructure_ofSource`). -/

namespace PipelineScript

open Statement

namespace Kind

variable {k : Kind}

theorem place_eq_body_iff : k.place = .body ↔ ¬ k.IsArm := by
  cases k <;> simp [place, IsArm]

theorem place_eq_branch_iff : k.place = .branch ↔ ∃ e, k = .branch e := by
  cases k <;> simp [place]

theorem place_eq_otherwise_iff : k.place = .otherwise ↔ k = .otherwise := by
  cases k <;> simp [place]

theorem place_eq_arm_iff : k.place = .arm ↔ (∃ e, k = .case_ e) ∨ k = .fallback := by
  cases k <;> simp [place]

theorem within_eq_body (h : ¬ k.OwnsArms) : k.within = .body := by
  cases k with
  | switch e => exact absurd trivial h
  | _ => rfl

end Kind

namespace Statement

/-- The shape of the trees that the reader builds. The arms of a switch come in any order. -/
structure Built (nodes : List Statement) : Prop where
  shape : ∀ above s, Occurs nodes above s → s.shape = s.kind.shape
  line : ∀ above s, Occurs nodes above s → s.shape = .line → s.children = []
  plain : ∀ list, PlainList nodes list → ∀ s ∈ list, ¬ s.kind.IsArm
  conditional : ∀ above s, Occurs nodes above s → s.kind = .conditional →
    ∃ branches, branches ≠ [] ∧
      ArmsOf (fun k => ∃ e, k = .branch e) (· = .otherwise) s.children branches
  switch : ∀ above s e, Occurs nodes above s → s.kind = .switch e →
    ∀ a ∈ s.children, (∃ e, a.kind = .case_ e) ∨ a.kind = .fallback

/-- The default arm of a switch has another arm behind it. -/
def EarlyDefault (nodes : List Statement) (d : Statement) : Prop :=
  d.kind = .fallback ∧ ∃ above s e before next after, Occurs nodes above s ∧
    s.kind = .switch e ∧ s.children = before ++ d :: next :: after

variable {nodes : List Statement}

/-- Statements that can be printed form a tree of the right shape. -/
theorem built_of_printable (h : ∀ s ∈ nodes, Printable .body s) : Built nodes := by
  have hall {above : List Statement} {s : Statement} (hs : Occurs nodes above s) :=
    Printable.exists_of_occurs h hs
  refine ⟨fun above s hs => ?_, fun above s hs => ?_, fun list hlist => ?_,
    fun above s hs hk => ?_, fun above s e hs hk => ?_⟩
  · obtain ⟨place, hp⟩ := hall hs
    exact hp.shape_eq
  · obtain ⟨place, hp⟩ := hall hs
    exact hp.children_eq_nil
  · suffices hbody : ∀ s ∈ list, Printable .body s from
      fun s hs => Kind.place_eq_body_iff.mp (hbody s hs).place_eq
    cases hlist with
    | whole => exact h
    | @children above s hs hk =>
      obtain ⟨place, hp⟩ := hall hs
      rw [← Kind.within_eq_body hk]
      exact hp.children_within fun hc => hk (by rw [hc]; trivial)
  · obtain ⟨place, hp⟩ := hall hs
    obtain ⟨first, further, last, hchildren, hbranches, hlast⟩ := hp.exists_branches hk
    refine ⟨first :: further, List.cons_ne_nil _ _, last, hchildren, fun b hb => ?_, fun o ho => ?_⟩
    · exact Kind.place_eq_branch_iff.mp (hbranches b hb).place_eq
    · exact Kind.place_eq_otherwise_iff.mp (hlast o ho).place_eq
  · obtain ⟨place, hp⟩ := hall hs
    have harms := hp.children_within (by rw [hk]; exact Kind.noConfusion)
    rw [hk] at harms
    exact fun a ha => Kind.place_eq_arm_iff.mp (harms a ha).place_eq

theorem ArmsOf.head_or_tail {isHead isTail : Kind → Prop} {arms heads : List Statement}
    (h : ArmsOf isHead isTail arms heads) : ∀ a ∈ arms, isHead a.kind ∨ isTail a.kind := by
  obtain ⟨last, rfl, hheads, hlast⟩ := h
  refine List.forall_mem_append.mpr ⟨fun a ha => .inl (hheads a ha), fun a ha => .inr ?_⟩
  exact hlast a (Option.mem_toList.mp ha)

/-- Behind an arm of the second kind there is nothing. -/
theorem ArmsOf.after_eq_nil {isHead isTail : Kind → Prop} {heads before after : List Statement}
    {a : Statement} (h : ArmsOf isHead isTail (before ++ a :: after) heads)
    (ha : ¬ isHead a.kind) : after = [] := by
  obtain ⟨last, harms, hheads, -⟩ := h
  by_contra hafter
  obtain ⟨next, after, rfl⟩ := List.exists_cons_of_ne_nil hafter
  suffices hmem : a ∈ heads from ha (hheads a hmem)
  cases last with
  | none =>
    rw [Option.toList_none, List.append_nil] at harms
    simp [← harms]
  | some b =>
    have hdrop : before ++ a :: (next :: after).dropLast = heads := by
      simpa using congrArg List.dropLast harms
    simp [← hdrop]

end Statement

namespace Finding

variable {nodes above arms : List Statement} {s : Statement} {f : Finding}

/-! ## Findings in lists -/

/-- In a list without arms there is nothing wrong but inside its statements. -/
theorem exists_of_mem_ofShapes (hplain : ∀ s ∈ nodes, ¬ s.kind.IsArm) (hf : f ∈ ofShapes nodes) :
    ∃ s ∈ nodes, f ∈ ofShape s := by
  induction nodes with
  | nil => cases hf
  | cons s rest ih =>
    obtain ⟨hs, hrest⟩ := List.forall_mem_cons.mp hplain
    rw [ofShapes, ofArm?_eq_none_iff.mpr hs, List.mem_append] at hf
    obtain hf | hf := hf
    · exact ⟨s, List.mem_cons_self, hf⟩
    · obtain ⟨t, ht, hft⟩ := ih hrest hf
      exact ⟨t, List.mem_cons_of_mem _ ht, hft⟩

/-- Among arms of their owner, what is wrong is inside an arm, or it is an arm that should come
last. -/
theorem exists_of_mem_ofArms {owner : ArmOwner}
    (harms : ∀ a ∈ arms, owner.isHead a.kind ∨ owner.isTail a.kind) (hf : f ∈ ofArms owner arms) :
    ∃ before a after, arms = before ++ a :: after ∧ (f ∈ ofShape a ∨
      owner.isTail a.kind ∧ after ≠ [] ∧ f = ⟨a.line, .tailNotLast owner⟩) := by
  induction arms with
  | nil => cases hf
  | cons a rest ih =>
    obtain ⟨ha, hrest⟩ := List.forall_mem_cons.mp harms
    rw [ofArms, List.mem_append] at hf
    obtain hf | hf := hf
    · refine ⟨[], a, rest, rfl, ?_⟩
      split at hf
      · exact .inl hf
      · rename_i hright
        have htail : owner.isTail a.kind := ha.resolve_left fun hh => hright (by simp [hh])
        rw [if_pos htail, List.mem_singleton] at hf
        exact .inr ⟨htail, fun hnil => hright (by simp [htail, hnil]), hf⟩
    · obtain ⟨before, b, after, rfl, hb⟩ := ih hrest hf
      exact ⟨a :: before, b, after, rfl, hb⟩

/-! ## Findings in trees -/

/-- Below a statement of a tree of the right shape, only default arms can be wrong. -/
theorem early_of_mem_ofShape (h : Built nodes) (hs : Occurs nodes above s) (hf : f ∈ ofShape s) :
    ∃ d, EarlyDefault nodes d ∧ f = ⟨d.line, .tailNotLast .switch⟩ := by
  induction s using induct generalizing above with
  | h s ih =>
    have hbelow {t : Statement} (ht : t ∈ s.children) (hft : f ∈ ofShape t) :=
      ih t ht (.child hs ht) hft
    have hshape := h.shape above s hs
    have hplain (hk : ¬ s.kind.OwnsArms) := h.plain _ (.children hs hk)
    obtain ⟨kind, shape, line, children⟩ := s
    rw [ofShape.eq_def] at hf
    dsimp only at hf hshape
    rw [if_neg (not_not_intro hshape)] at hf
    cases kind with
    | conditional =>
      obtain ⟨branches, hne, harms⟩ := h.conditional above _ hs rfl
      rw [if_pos ((startsWithBranch_iff harms).mpr hne), List.nil_append] at hf
      simp only [← isHead_conditional_iff, ← isTail_conditional_iff] at harms
      obtain ⟨before, a, after, rfl, hfa | ⟨htail, hafter, -⟩⟩ :=
        exists_of_mem_ofArms harms.head_or_tail hf
      · exact hbelow (by simp) hfa
      · exact absurd (harms.after_eq_nil (by simp [isHead_eq_false_of_isTail htail])) hafter
    | switch e =>
      have harms := h.switch above _ e hs rfl
      simp only [← isHead_switch_iff, ← isTail_switch_iff] at harms
      obtain ⟨before, a, after, rfl, hfa | ⟨htail, hafter, hfound⟩⟩ := exists_of_mem_ofArms harms hf
      · exact hbelow (by simp) hfa
      · obtain ⟨next, after, rfl⟩ := List.exists_cons_of_ne_nil hafter
        have hearly : EarlyDefault nodes a :=
          ⟨isTail_switch_iff.mp htail, above, _, e, before, next, after, hs, rfl, rfl⟩
        exact ⟨a, hearly, hfound⟩
    | branch | otherwise | case_ | fallback | forLoop | whileLoop | function =>
      obtain ⟨t, ht, hft⟩ := exists_of_mem_ofShapes (hplain id) hf
      exact hbelow ht hft
    | _ =>
      obtain rfl : children = [] := h.line above _ hs hshape
      cases hf

/-! ## Main statement -/

/-- A tree that was read has the right shape at every depth. All that the rule of block structure
finds in it is default arms with another arm of the switch behind them, and it finds nothing if and
only if there is no such arm. -/
theorem blockStructure_ofSource {source : String} (h : ofSource source = .ok nodes) :
    Built nodes ∧
      (∀ f ∈ ofRule nodes .blockStructure, ∃ d, EarlyDefault nodes d ∧
        f = ⟨d.line, .tailNotLast .switch⟩ ∧
          f.cause.message = "'Default' must be the last arm of 'Switch'") ∧
      (ofRule nodes .blockStructure = [] ↔ ∀ d, ¬ EarlyDefault nodes d) := by
  have hbuilt := built_of_printable (printable_of_ofSource h)
  have hplain := hbuilt.plain nodes .whole
  have hearly {f : Finding} (hf : f ∈ ofShapes nodes) :
      ∃ d, EarlyDefault nodes d ∧ f = ⟨d.line, .tailNotLast .switch⟩ := by
    obtain ⟨s, hs, hfs⟩ := exists_of_mem_ofShapes hplain hf
    exact early_of_mem_ofShape hbuilt (.top hs) hfs
  refine ⟨hbuilt, fun f hf => ?_, fun hnil d hd => ?_, fun hnone => ?_⟩
  · obtain ⟨d, hd, rfl⟩ := hearly hf
    exact ⟨d, hd, rfl, rfl⟩
  · obtain ⟨hk, above, s, e, before, next, after, hs, hsk, hchildren⟩ := hd
    obtain ⟨cases, harms⟩ := ((ofShapes_eq_nil_iff_occurs.mp hnil).2 above s hs).switch e hsk
    rw [hchildren] at harms
    exact List.cons_ne_nil _ _ (harms.after_eq_nil (by simp [hk]))
  · refine List.eq_nil_iff_forall_not_mem.mpr fun f hf => ?_
    obtain ⟨d, hd, -⟩ := hearly hf
    exact hnone d hd

/-- The default arm comes first. -/
theorem blockStructure_ofSource_first :
    let source := "switch (x) \x7b default: echo 1; case 2: \x7d"
    let nodes := [
      ofBlock (.switch ⟨"x"⟩) 1 [
        ofBlock .fallback 1 [ofLine (.echo ⟨"1"⟩) 1], ofBlock (.case_ ⟨"2"⟩) 1 []]]
    ofSource source = .ok nodes ∧ ofRule nodes .blockStructure = [⟨1, .tailNotLast .switch⟩] ∧
      Built nodes ∧
      (∀ f ∈ ofRule nodes .blockStructure, ∃ d, EarlyDefault nodes d ∧
        f = ⟨d.line, .tailNotLast .switch⟩ ∧
          f.cause.message = "'Default' must be the last arm of 'Switch'") ∧
      (ofRule nodes .blockStructure = [] ↔ ∀ d, ¬ EarlyDefault nodes d) := by
  intro source nodes
  have hnodes : ofSource source = .ok nodes := by cbv
  have hfound : ofRule nodes .blockStructure = [⟨1, .tailNotLast .switch⟩] := by cbv
  exact ⟨hnodes, hfound, blockStructure_ofSource hnodes⟩

end Finding

end PipelineScript
