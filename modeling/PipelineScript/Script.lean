import PipelineScript.Digest
import PipelineScript.Finding.Rules
import PipelineScript.Statement.Reader

/-! # Scripts

A script is the statements of a text, checked and stamped with the digest of the text. -/

namespace PipelineScript

structure Script where
  /-- The SHA-256 digest of the text in hexadecimal. -/
  hash : String
  statements : List Statement
deriving Repr

namespace Script

/-- Reads and checks a text. The first fault of the first stage that has one is the answer. -/
def compile (source : String) : Except Diagnostic Script := do
  let statements ← Statement.ofSource source
  Finding.check statements
  return ⟨Digest.ofText source, statements⟩

theorem compile_eq_ok_iff {source : String} {script : Script} :
    compile source = .ok script ↔ Statement.ofSource source = .ok script.statements ∧
      Finding.check script.statements = .ok () ∧ script.hash = Digest.ofText source := by
  obtain ⟨hash, nodes⟩ := script
  simp only [compile, bind, Except.bind, pure, Except.pure]
  rcases Statement.ofSource source with d | statements
  · simp
  · rcases hc : Finding.check statements with d | u
    · simp only [hc, reduceCtorEq, Except.ok.injEq, false_iff, not_and]
      rintro rfl h
      cases hc.symm.trans h
    · simp only [hc, Except.ok.injEq, Script.mk.injEq]
      constructor
      · rintro ⟨rfl, rfl⟩; exact ⟨rfl, hc, rfl⟩
      · rintro ⟨rfl, -, rfl⟩; exact ⟨rfl, rfl⟩

end Script

end PipelineScript
