import Mathlib
import PipelineScript.Proofs.Statement.Comments
import PipelineScript.Proofs.Statement.Expressions

/-! # Expressions on their own

An expression is kept as text, and read again when it is evaluated. Read on its own it has the code
of the tokens that it was cut from (`Statement.slices_faithful`). -/

namespace PipelineScript

namespace Token

/-! ## Scanning a slice -/

/-- The text between the ends of some tokens, scanned alone, has their code. -/
theorem exists_scan_of_sourceOf? {source : String} {ts range : List Token} {e : SourceExpr}
    (hts : ofSource source = .ok ts) (hrange : range <:+: ts.filter fun t => !t.lexeme.isComment)
    (he : Cursor.sourceOf? source.toList range = some e) :
    ∃ own, scan 1 0 e.source.toList = .ok own ∧ code own = code range := by
  unfold Cursor.sourceOf? at he
  split at he
  · rename_i first last hfirst hlast
    cases he
    obtain ⟨before, middle, after, rfl, hfilter, hfirst, hlast⟩ :=
      exists_of_infix_filter hrange hfirst hlast
    have hscans := scans_of_scan (ofSource_eq_ok.mp hts).2
    obtain ⟨as, bs, ds, htext, hstart, hstop, hmiddle⟩ := hscans.middle hfirst hlast
    have hslice : Text.slice first.start last.stop source.toList = bs := by
      rw [htext, hstop, hstart, Nat.zero_add]
      exact Text.slice_middle as bs ds
    obtain ⟨offset, ts', htrim, hcode⟩ := hmiddle.trim
    obtain ⟨own, hown, hlexemes⟩ := htrim.scan 1 0
    refine ⟨own, by rw [String.toList_ofList, hslice, hown], ?_⟩
    calc code own = code ts' := by unfold code; rw [hlexemes]
      _ = code middle := hcode
      _ = code range := by rw [← hfilter, code_filter]
  · cases he

/-- The text of balanced tokens has tokens. -/
theorem exists_ofSource_of_cut {source : String} {ts : List Token} {e : SourceExpr}
    (hts : ofSource source = .ok ts)
    (he : Reading.IsCut source.toList (ts.filter fun t => !t.lexeme.isComment) e) :
    ∃ own, ofSource e.source = .ok own := by
  obtain ⟨range, hrange, hbal, hsource⟩ := he
  obtain ⟨own, hown, hcode⟩ := exists_scan_of_sourceOf? hts hrange hsource
  refine ⟨own, ofSource_eq_ok.mpr ⟨?_, hown⟩⟩
  exact (Balance.check_eq_ok_iff (scans_of_scan hown)).mpr ((balanced_iff hcode).mpr hbal)

/-- Whichever tokens a text was cut from, its own have their code. -/
theorem code_eq_of_sourceOf? {source : String} {ts range own : List Token} {e : SourceExpr}
    (hts : ofSource source = .ok ts) (hrange : range <:+: ts.filter fun t => !t.lexeme.isComment)
    (he : Cursor.sourceOf? source.toList range = some e) (hown : ofSource e.source = .ok own) :
    code own = code range := by
  obtain ⟨own', hown', hcode⟩ := exists_scan_of_sourceOf? hts hrange he
  obtain rfl := Except.ok.inj (hown'.symm.trans (ofSource_eq_ok.mp hown).2)
  exact hcode

end Token

namespace Statement

theorem cut_of_ofTokens {text : List Char} {tokens : List Token} {nodes : List Statement}
    (hcode : Token.Balanced (tokens.filter fun t => !t.lexeme.isComment))
    (h : ofTokens text tokens = .ok nodes) :
    ∀ e ∈ expressionsOf nodes,
      Reading.IsCut text (tokens.filter fun t => !t.lexeme.isComment) e := by
  unfold ofTokens at h
  dsimp only at h
  generalize hr : (readList _ .endOfText).run (.ofTokens text _) = r at h
  cases r with
  | error d => cases h
  | ok result =>
    cases h
    have hwithin : Reading.Within text (tokens.filter fun t => !t.lexeme.isComment)
        (.ofTokens text (tokens.filter fun t => !t.lexeme.isComment)) := ⟨rfl, List.suffix_refl _⟩
    obtain ⟨-, -, hcut⟩ := cuts_readList hcode _ .endOfText _ hwithin result.1 result.2 hr
    exact hcut

/-- Every expression of a script is the text of balanced tokens. -/
theorem cut_of_ofSource {source : String} {nodes : List Statement}
    (h : ofSource source = .ok nodes) :
    ∃ tokens, Token.ofSource source = .ok tokens ∧ ∀ e ∈ expressionsOf nodes,
      Reading.IsCut source.toList (tokens.filter fun t => !t.lexeme.isComment) e := by
  unfold ofSource at h
  cases htokens : Token.ofSource source with
  | error d => rw [htokens] at h; cases h
  | ok tokens =>
    rw [htokens] at h
    obtain ⟨hcheck, hscan⟩ := Token.ofSource_eq_ok.mp htokens
    exact ⟨tokens, rfl, cut_of_ofTokens (Token.balanced_of_check hcheck hscan) h⟩

/-- Every expression of a script is the text of some tokens in a row. On its own it has tokens
again, and whichever tokens it was cut from, these have the same code. -/
theorem slices_faithful {source : String} {nodes : List Statement}
    (h : ofSource source = .ok nodes) :
    ∃ tokens, Token.ofSource source = .ok tokens ∧ ∀ e ∈ expressionsOf nodes,
      (∃ range, range <:+: tokens.filter (fun t => !t.lexeme.isComment) ∧
        Cursor.sourceOf? source.toList range = some e) ∧
      ∃ own, Token.ofSource e.source = .ok own ∧
        ∀ range, range <:+: tokens.filter (fun t => !t.lexeme.isComment) →
          Cursor.sourceOf? source.toList range = some e → Token.code own = Token.code range := by
  obtain ⟨tokens, htokens, hcuts⟩ := cut_of_ofSource h
  refine ⟨tokens, htokens, fun e he => ?_⟩
  have hcut := hcuts e he
  obtain ⟨own, hown⟩ := Token.exists_ofSource_of_cut htokens hcut
  obtain ⟨range, hrange, -, hsource⟩ := hcut
  refine ⟨⟨range, hrange, hsource⟩, own, hown, fun range' hrange' hsource' => ?_⟩
  exact Token.code_eq_of_sourceOf? htokens hrange' hsource' hown

theorem slices_faithful_call :
    let source := "x = f(1, /* two */ [2])\necho (x // y\n)"
    let nodes := [
      ofLine (.assign "x" (.invoke ⟨"f", [⟨"1"⟩, ⟨"[2]"⟩]⟩ ⟨"f(1, /* two */ [2])"⟩)) 1,
      ofLine (.echo ⟨"(x // y\n)"⟩) 2]
    ofSource source = .ok nodes ∧
    ∃ tokens, Token.ofSource source = .ok tokens ∧ ∀ e ∈ expressionsOf nodes,
      (∃ range, range <:+: tokens.filter (fun t => !t.lexeme.isComment) ∧
        Cursor.sourceOf? source.toList range = some e) ∧
      ∃ own, Token.ofSource e.source = .ok own ∧
        ∀ range, range <:+: tokens.filter (fun t => !t.lexeme.isComment) →
          Cursor.sourceOf? source.toList range = some e → Token.code own = Token.code range := by
  intro source nodes
  have hnodes : ofSource source = .ok nodes := by cbv
  exact ⟨hnodes, slices_faithful hnodes⟩

end Statement

end PipelineScript
