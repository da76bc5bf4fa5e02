import PipelineScript.Proofs.Run.Alike
import PipelineScript.Script

/-! # Values that a script does not mention

Every expression sees all bindings in sight, and every assignment looks for a binding of its name.
All the same, a script depends on the values of a host only under the names that occur in its text.
Main statement: `unmentioned_irrelevant`. -/

namespace PipelineScript.Run

/-- Two hosts that hand over the same under all names among the tokens of a script and under two
names of the system, the one of the thread pool and the one of the export, cannot be told apart by
what the script comes to and what it echoes. -/
theorem unmentioned_irrelevant {source : String} {script : Script} {tokens : List Token}
    (h : Script.compile source = .ok script) (htokens : Token.ofSource source = .ok tokens)
    {host host' : HostValues}
    (hhosts : ∀ name, name ∈ Lexeme.namesOf (tokens.map Token.lexeme) ∨
        name = Context.poolName ∨ name = Context.exportName →
      (Context.ofHost host').lookUp name = (Context.ofHost host).lookUp name)
    {sv sv' : Services} (hsv : sv.Alike sv') {memo memo' : Memo} (hmemo : memo.Sound)
    (hmemo' : memo'.Sound) (monitor monitor' : Option Monitor) :
    let run := (Run.script sv script.statements).run (start host memo monitor)
    let run' := (Run.script sv' script.statements).run (start host' memo' monitor')
    run'.1 = run.1 ∧ run'.2.echoed = run.2.echoed := by
  intro run run'
  let Mentioned (name : String) : Prop := name ∈ Lexeme.namesOf (tokens.map Token.lexeme) ∨
    name = Context.poolName ∨ name = Context.exportName
  have hread : Statement.ofSource source = .ok script.statements :=
    (Script.compile_eq_ok_iff.mp h).1
  have hnodes : ∀ s ∈ script.statements, s.Mentions Mentioned := fun s hs =>
    (Statement.mentions_of_ofSource hread htokens s hs).mono fun k hk => hk.mono fun _ => .inl
  have hclock : sv' = sv ∧ 0 = 0 ∨ sv.Untimed sv' := hsv.time.imp_left fun h => ⟨h, rfl⟩
  have hstart : (start host memo monitor).Alike Mentioned sv sv' (start host' memo' monitor') :=
    ⟨Context.agree_ofHost hhosts, Context.knows_ofHost host, hmemo, hmemo', rfl, hclock⟩
  obtain ⟨hresult, hechoed, -⟩ :=
    script_alike hsv (.inr (.inl rfl)) (.inr (.inr rfl)) hnodes hstart
  exact ⟨hresult, hechoed⟩

/-- Of two values of the host the script takes one, and at another time it does the same. -/
theorem unmentioned_irrelevant_sum :
    let nodes : List Statement := [.ofLine (.exportValue ⟨"x + 1"⟩) 1]
    let later : Services := { Services.bare 0 with startedAt := ⟨60, 0⟩ }
    let run := (script (.bare 0) nodes).run (start [("x", .int 1)] .standard none)
    let run' := (script later nodes).run (start [("x", .int 1), ("y", .int 2)] .standard (some []))
    Script.compile "export x + 1" = .ok ⟨Digest.ofText "export x + 1", nodes⟩ ∧
      run'.1 = run.1 ∧ run'.2.echoed = run.2.echoed := by
  intro nodes later run run'
  have htokens : Token.ofSource "export x + 1" = .ok [⟨.keyword .export_, 1, 0, 6⟩,
      ⟨.ident "x", 1, 7, 8⟩, ⟨.punct .plus, 1, 9, 10⟩, ⟨.int 1, 1, 11, 12⟩] := by cbv
  have hcompile : Script.compile "export x + 1" = .ok ⟨Digest.ofText "export x + 1", nodes⟩ := by
    refine Script.compile_eq_ok_iff.mpr ⟨?_, rfl, rfl⟩
    rw [Statement.ofSource, htokens]
    rfl
  have hsv : (Services.bare 0).Alike later :=
    ⟨rfl, rfl, rfl, rfl, .inr ⟨rfl, rfl, by rintro name task ⟨⟩⟩⟩
  refine ⟨hcompile, unmentioned_irrelevant hcompile htokens ?_ hsv Memo.sound_standard
    Memo.sound_standard none (some [])⟩
  rintro name (hname | rfl | rfl)
  · obtain rfl := List.mem_singleton.mp hname
    rfl
  · rfl
  · rfl

end PipelineScript.Run
