import Mathlib
import PipelineScript.Proofs.Finding.Views
import PipelineScript.Proofs.Run.Views
import PipelineScript.Proofs.Statement.Layout
import PipelineScript.Script

/-! # Layout does not change what a script does

Texts whose tokens are spelled alike compile both or not at all, and run alike: with the same host,
tasks and settings they echo the same messages and export the same value, or stop for reasons of the
same kind (`layout_irrelevant`). What they remember of other runs does not matter. -/

namespace PipelineScript

/-- The tokens of two texts are spelled alike, comments left out and statement ends not told
apart. -/
def SameLayout (source source' : String) : Prop :=
  ∃ ts us, Token.ofSource source = .ok ts ∧ Token.ofSource source' = .ok us ∧
    (Token.uncommented ts).map (fun t => t.lexeme.spelling) =
      (Token.uncommented us).map (fun t => t.lexeme.spelling)

theorem SameLayout.symm {source source' : String} (h : SameLayout source source') :
    SameLayout source' source := by
  obtain ⟨ts, us, hts, hus, hsame⟩ := h
  exact ⟨us, ts, hus, hts, hsame.symm⟩

namespace Script

/-- Rules find as much in one text as in the other. -/
theorem compile_layout {source source' : String} (h : SameLayout source source') {script : Script}
    (hscript : compile source = .ok script) :
    ∃ script', compile source' = .ok script' ∧ View.treesOnly.statements script'.statements =
      View.treesOnly.statements script.statements := by
  obtain ⟨ts, us, hts, hus, hsame⟩ := h
  obtain ⟨hread, hcheck, -⟩ := compile_eq_ok_iff.mp hscript
  obtain ⟨nodes', hread', htrees⟩ := Statement.ofSource_layout hts hus hsame hread
  have hcheck' : Finding.check nodes' = .ok () := by
    rw [← Finding.check_view .treesOnly, htrees, Finding.check_view]
    exact hcheck
  exact ⟨⟨Digest.ofText source', nodes'⟩, compile_eq_ok_iff.mpr ⟨hread', hcheck', rfl⟩, htrees⟩

end Script

namespace Run

/-- At the start nothing of a script is there to be seen. -/
theorem shows_start (v : View) (host : HostValues) {memo memo' : Memo} (hmemo : memo.Sound)
    (hmemo' : memo'.Sound) (monitor monitor' : Option Monitor) :
    (start host memo monitor).Shows v (start host memo' monitor') :=
  ⟨(v.context_ofHost host).symm, rfl, rfl, hmemo, hmemo'⟩

/-- Texts that are the same but for their layout compile both or not at all, and their runs echo the
same messages and end alike, whatever was remembered before them. -/
theorem layout_irrelevant {source source' : String} (h : SameLayout source source') :
    ((∃ script, Script.compile source = .ok script) ↔
      ∃ script', Script.compile source' = .ok script') ∧
    ∀ script script', Script.compile source = .ok script →
      Script.compile source' = .ok script' →
      ∀ (sv : Services) (host : HostValues) (memo memo' : Memo) (monitor monitor' : Option Monitor),
        memo.Sound → memo'.Sound →
        let run := (Run.script sv script.statements).run (start host memo monitor)
        let run' := (Run.script sv script'.statements).run (start host memo' monitor')
        run'.2.messages = run.2.messages ∧
          ((∃ exported, run.1 = .ok exported ∧ run'.1 = .ok exported) ∨
            ∃ halt halt', run.1 = .error halt ∧ run'.1 = .error halt' ∧ halt'.kind = halt.kind) := by
  refine ⟨⟨fun ⟨script, hs⟩ => ?_, fun ⟨script, hs⟩ => ?_⟩, ?_⟩
  · obtain ⟨script', hs', -⟩ := Script.compile_layout h hs
    exact ⟨script', hs'⟩
  · obtain ⟨script', hs', -⟩ := Script.compile_layout h.symm hs
    exact ⟨script', hs'⟩
  intro script script' hs hs' sv host memo memo' monitor monitor' hmemo hmemo' run run'
  obtain ⟨_, hother, htrees⟩ := Script.compile_layout h hs
  rw [Except.ok.inj (hother.symm.trans hs')] at htrees
  -- both runs are shown by the run of what the view leaves of either script
  have hview := script_view (v := .treesOnly) View.tree?_treesOnly sv
  obtain ⟨hend, hshows⟩ := hview script.statements
    (shows_start .treesOnly host hmemo hmemo monitor monitor)
  obtain ⟨hend', hshows'⟩ := hview script'.statements
    (shows_start .treesOnly host hmemo' hmemo monitor' monitor)
  rw [htrees] at hend' hshows'
  have hmessages : run'.2.messages = run.2.messages :=
    hshows'.messages.symm.trans hshows.messages
  have hresult : run'.1.mapError Halt.kind = run.1.mapError Halt.kind := hend'.symm.trans hend
  refine ⟨hmessages, ?_⟩
  rcases hrun : run.1 with halt | exported <;> rcases hrun' : run'.1 with halt' | exported' <;>
    rw [hrun, hrun'] at hresult
  · exact .inr ⟨halt, halt', rfl, rfl, Except.error.inj hresult⟩
  · cases hresult
  · cases hresult
  · exact .inl ⟨exported, rfl, congrArg Except.ok (Except.ok.inj hresult)⟩

/-- A comment and a zero in front of a number. -/
theorem layout_irrelevant_comment :
    let tree : List Statement := [.ofLine (.exportValue ⟨"x[1]"⟩) 1]
    let tree' : List Statement := [.ofLine (.exportValue ⟨"x/**/[01]"⟩) 1]
    SameLayout "export x[1]" "export x/**/[01]" ∧
      Script.compile "export x[1]" = .ok ⟨Digest.ofText "export x[1]", tree⟩ ∧
      Script.compile "export x/**/[01]" = .ok ⟨Digest.ofText "export x/**/[01]", tree'⟩ ∧
      Memo.standard.Sound ∧
      ((Run.script (.bare 0) tree').run (start [] .standard none)).2.messages =
        ((Run.script (.bare 0) tree).run (start [] .standard none)).2.messages := by
  intro tree tree'
  have hts : Token.ofSource "export x[1]" = .ok [⟨.keyword .export_, 1, 0, 6⟩,
      ⟨.ident "x", 1, 7, 8⟩, ⟨.punct .openBracket, 1, 8, 9⟩, ⟨.int 1, 1, 9, 10⟩,
      ⟨.punct .closeBracket, 1, 10, 11⟩] := by cbv
  have hus : Token.ofSource "export x/**/[01]" = .ok [⟨.keyword .export_, 1, 0, 6⟩,
      ⟨.ident "x", 1, 7, 8⟩, ⟨.comment "/**/", 1, 8, 12⟩, ⟨.punct .openBracket, 1, 12, 13⟩,
      ⟨.int 1, 1, 13, 15⟩, ⟨.punct .closeBracket, 1, 15, 16⟩] := by cbv
  have hsame : SameLayout "export x[1]" "export x/**/[01]" := ⟨_, _, hts, hus, rfl⟩
  have hs : Script.compile "export x[1]" = .ok ⟨Digest.ofText "export x[1]", tree⟩ := by
    refine Script.compile_eq_ok_iff.mpr ⟨?_, rfl, rfl⟩
    rw [Statement.ofSource, hts]
    rfl
  have hs' : Script.compile "export x/**/[01]" =
      .ok ⟨Digest.ofText "export x/**/[01]", tree'⟩ := by
    refine Script.compile_eq_ok_iff.mpr ⟨?_, rfl, rfl⟩
    rw [Statement.ofSource, hus]
    rfl
  exact ⟨hsame, hs, hs', Memo.sound_standard, ((layout_irrelevant hsame).2 _ _ hs hs' (.bare 0) []
    .standard .standard none none Memo.sound_standard Memo.sound_standard).1⟩

end Run

end PipelineScript
