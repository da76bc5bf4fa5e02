import PipelineScript.Proofs.Statement.Occurrences
import PipelineScript.Proofs.Statement.Printable

/-! # The statements of a tree that can be printed

Wherever a statement occurs in a tree that can be printed, it can be printed in its own place
(`Statement.Printable.exists_of_occurs`). Its shape is that of its kind, and its children stand
where the kind has them. -/

namespace PipelineScript

namespace Statement

variable {nodes above : List Statement} {s : Statement} {place : Place}

namespace Printable

theorem place_eq (h : Printable place s) : s.kind.place = place := by
  cases h with
  | @line kind _ hk => cases kind <;> first | rfl | cases hk.shape
  | block kind hplace => exact hplace
  | conditional => rfl

theorem kind_printable (h : Printable place s) : s.kind.Printable := by
  cases h with
  | line hk => exact hk.printable
  | block kind _ _ _ hk => exact hk
  | conditional => trivial

theorem shape_eq (h : Printable place s) : s.shape = s.kind.shape := by
  cases h with
  | line hk => exact hk.shape.symm
  | block kind _ hshape => exact hshape.symm
  | conditional => rfl

theorem children_eq_nil (h : Printable place s) (hs : s.shape = .line) : s.children = [] := by
  cases h with
  | line => rfl
  | block | conditional => cases hs

theorem children_within (h : Printable place s) (hk : s.kind ≠ .conditional) :
    ∀ t ∈ s.children, Printable s.kind.within t := by
  cases h with
  | line => exact List.forall_mem_nil _
  | block kind _ _ _ _ hchildren => exact hchildren
  | conditional => exact absurd rfl hk

theorem exists_branches (h : Printable place s) (hk : s.kind = .conditional) :
    ∃ first further, ∃ last : Option Statement, s.children = first :: (further ++ last.toList) ∧
      (∀ b ∈ first :: further, Printable .branch b) ∧ ∀ o ∈ last, Printable .otherwise o := by
  cases h with
  | line h => cases hk; cases h.shape
  | block kind _ _ hne => exact absurd hk hne
  | @conditional _ first further last hfirst hfurther hlast =>
    exact ⟨first, further, last, rfl, List.forall_mem_cons.mpr ⟨hfirst, hfurther⟩, hlast⟩

theorem exists_of_mem_children (h : Printable place s) {t : Statement} (ht : t ∈ s.children) :
    ∃ place, Printable place t := by
  by_cases hk : s.kind = .conditional
  · obtain ⟨first, further, last, hchildren, hbranches, hlast⟩ := h.exists_branches hk
    rw [hchildren, ← List.cons_append, List.mem_append] at ht
    obtain ht | ht := ht
    · exact ⟨_, hbranches t ht⟩
    · exact ⟨_, hlast t (Option.mem_toList.mp ht)⟩
  · exact ⟨_, h.children_within hk t ht⟩

theorem exists_of_occurs (h : ∀ s ∈ nodes, Printable .body s) (hs : Occurs nodes above s) :
    ∃ place, Printable place s := by
  induction hs with
  | top hs => exact ⟨_, h _ hs⟩
  | child _ ht ih =>
    obtain ⟨place, hp⟩ := ih
    exact hp.exists_of_mem_children ht

end Printable

end Statement

end PipelineScript
