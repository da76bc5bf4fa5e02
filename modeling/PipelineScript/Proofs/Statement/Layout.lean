import Mathlib
import PipelineScript.Proofs.Evaluation.Trees
import PipelineScript.Proofs.Statement.Concatenation
import PipelineScript.Proofs.Statement.Slices

/-! # Layout

Spaces, comments, line breaks and the spelling of literals are a matter of layout: two texts have
the same layout aside if their tokens spell the same, comments left out. Such texts are both scripts
or neither is, with the same statements but for lines and for expressions, which have the same trees
(`Statement.ofSource_layout`). -/

namespace PipelineScript

/-- No two marks look the same. -/
theorem Punct.chars_injective : Function.Injective Punct.chars := by
  have hread : ∀ p : Punct, Punct.read? p.chars = some p := by intro p; cases p <;> decide
  intro p q h
  exact Option.some.inj ((hread p).symm.trans ((congrArg Punct.read? h).trans (hread q)))

namespace Lexeme

/-- What is seen of a lexeme: its kind and its text. A statement end is seen as such only. -/
def spelling (l : Lexeme) : String × Option String :=
  (l.kindName, if l.isLineEnd then none else some l.text)

/-- Lexemes that are spelled alike are alike. -/
theorem alike_of_spelling {l l' : Lexeme} (h : l.spelling = l'.spelling) : l.Alike l' := by
  have hkind : l.kindName = l'.kindName := congrArg Prod.fst h
  have htext := congrArg Prod.snd h
  cases l <;> cases l' <;> first | (simp [kindName] at hkind; done) | skip
  case ident.ident a b => obtain rfl : a = b := Option.some.inj htext; exact .refl _
  case systemIdent.systemIdent a b => obtain rfl : a = b := Option.some.inj htext; exact .refl _
  case float.float a b => obtain rfl : a = b := Option.some.inj htext; exact .refl _
  case str.str a b => obtain rfl : a = b := Option.some.inj htext; exact .refl _
  case comment.comment a b => obtain rfl : a = b := Option.some.inj htext; exact .refl _
  case lineEnd.lineEnd a b => exact .lineEnd a b
  case keyword.keyword a b =>
    have hab : a.text = b.text := Option.some.inj htext
    obtain rfl : a = b := Option.some.inj (by
      rw [← Keyword.ofText?_text a, hab, Keyword.ofText?_text])
    exact .refl _
  case int.int a b =>
    have hab : toString a.toInt = toString b.toInt := Option.some.inj htext
    obtain rfl : a = b := Int64.toInt_inj.mp (Int.repr_injective hab)
    exact .refl _
  case punct.punct a b =>
    have hab : a.chars = b.chars := String.ofList_injective (Option.some.inj htext)
    obtain rfl : a = b := Punct.chars_injective hab
    exact .refl _

end Lexeme

/-- Two expressions are interchangeable if they have the same tree, or none. -/
def SourceExpr.sameTree : Setoid SourceExpr := Setoid.ker SourceExpr.tree?

/-- The statements without their lines, every expression replaced by one and the same with its
tree. -/
noncomputable def View.treesOnly : View where
  expr e := (Quotient.mk SourceExpr.sameTree e).out
  line _ := 0

namespace View

theorem tree?_treesOnly (e : SourceExpr) : (treesOnly.expr e).tree? = e.tree? :=
  Quotient.mk_out (s := SourceExpr.sameTree) e

theorem expr_treesOnly_eq_iff {e e' : SourceExpr} :
    treesOnly.expr e = treesOnly.expr e' ↔ e.tree? = e'.tree? := by
  constructor
  · intro h
    rw [← tree?_treesOnly e, h, tree?_treesOnly]
  · intro h
    exact congrArg Quotient.out (Quotient.sound (s := SourceExpr.sameTree) h)

end View

namespace Token

/-- The tree of an expression is the tree of its code, if the brackets of that nest. -/
theorem tree?_of_scan {e : SourceExpr} {own : List Token}
    (h : scan 1 0 e.source.toList = .ok own) :
    e.tree? = if Lexeme.nest [] (code own) = some [] then
      (Expression.ofLexemes (code own)).toOption else none := by
  have hcheck := Balance.check_eq_ok_iff (scans_of_scan h)
  rw [← Lexeme.nest_code] at hcheck
  have hread : e.tree? = ((ofChars e.source.toList).toOption.bind fun tokens =>
      (Expression.ofLexemes (Expression.lexemesOf tokens)).toOption) := by
    unfold SourceExpr.tree? Expression.ofSource
    cases ofChars e.source.toList <;> rfl
  rw [hread]
  by_cases hbal : Lexeme.nest [] (code own) = some []
  · have hchars : ofChars e.source.toList = .ok own := by
      unfold ofChars
      rw [hcheck.mpr hbal]
      exact h
    rw [if_pos hbal, hchars]
    rfl
  · rw [if_neg hbal]
    unfold ofChars
    cases hc : Balance.check e.source.toList with
    | error fault => rfl
    | ok => exact absurd (hcheck.mp hc) hbal

/-- The tree of an expression depends on its code alone. -/
theorem tree?_eq_of_code {e e' : SourceExpr} {own own' : List Token}
    (h : scan 1 0 e.source.toList = .ok own) (h' : scan 1 0 e'.source.toList = .ok own')
    (hcode : code own = code own') : e.tree? = e'.tree? := by
  rw [tree?_of_scan h, tree?_of_scan h', hcode]

theorem code_alike {ps : List (Token × Token)} (h : ∀ p ∈ ps, p.1.lexeme.Alike p.2.lexeme) :
    code (ps.map Prod.fst) = code (ps.map Prod.snd) := by
  induction ps with
  | nil => rfl
  | cons p ps ih =>
    obtain ⟨hp, hps⟩ := List.forall_mem_cons.mp h
    rw [List.map_cons, List.map_cons, code_cons, code_cons, ih hps]
    generalize p.1.lexeme = l at hp
    generalize p.2.lexeme = l' at hp
    cases hp with
    | refl => rfl
    | lineEnd => rfl

end Token

namespace Statement

open Twin

/-- Two texts, looked at for their trees only. -/
noncomputable def treeTwin (source source' : String) : Twin :=
  ⟨.treesOnly, .treesOnly, source.toList, source'.toList, [], by simp⟩

theorem sourceOf?_eq_none_iff {text : List Char} {ts : List Token} :
    Cursor.sourceOf? text ts = none ↔ ts = [] := by
  cases ts with
  | nil => exact iff_of_true rfl rfl
  | cons t ts => simp [Cursor.sourceOf?, List.getLast?_cons]

theorem mirror_layout {source source' : String} {ts us : List Token}
    (hts : Token.ofSource source = .ok ts) (hus : Token.ofSource source' = .ok us)
    {ps : List (Token × Token)} (hfst : ps.map Prod.fst = Token.uncommented ts)
    (hsnd : ps.map Prod.snd = Token.uncommented us)
    (hps : ∀ p ∈ ps, p.1.lexeme.Alike p.2.lexeme) : (treeTwin source source').Mirror ps where
  lexeme := hps
  line _ _ := rfl
  slice qs hqs := by
    have hrow : qs.map Prod.fst <:+: Token.uncommented ts := hfst ▸ hqs.map Prod.fst
    have hrow' : qs.map Prod.snd <:+: Token.uncommented us := hsnd ▸ hqs.map Prod.snd
    show (Cursor.sourceOf? source'.toList (qs.map Prod.snd)).map View.treesOnly.expr =
      (Cursor.sourceOf? source.toList (qs.map Prod.fst)).map View.treesOnly.expr
    cases he : Cursor.sourceOf? source.toList (qs.map Prod.fst) with
    | none =>
      obtain rfl : qs = [] := by simpa using sourceOf?_eq_none_iff.mp he
      rfl
    | some e =>
      cases he' : Cursor.sourceOf? source'.toList (qs.map Prod.snd) with
      | none =>
        obtain rfl : qs = [] := by simpa using sourceOf?_eq_none_iff.mp he'
        cases he
      | some e' =>
        obtain ⟨own, hown, hcode⟩ := Token.exists_scan_of_sourceOf? hts hrow he
        obtain ⟨own', hown', hcode'⟩ := Token.exists_scan_of_sourceOf? hus hrow' he'
        have hsame := Token.code_alike fun p hp => hps p (hqs.subset hp)
        refine congrArg some (View.expr_treesOnly_eq_iff.mpr ?_)
        exact (Token.tree?_eq_of_code hown hown' (hcode.trans (hsame.trans hcode'.symm))).symm

/-- Two texts with tokens that are spelled alike hold statements that are the same but for lines
and for expressions, which have the same trees. -/
theorem ofSource_layout {source source' : String} {ts us : List Token}
    (hts : Token.ofSource source = .ok ts) (hus : Token.ofSource source' = .ok us)
    (h : (Token.uncommented ts).map (fun t => t.lexeme.spelling) =
      (Token.uncommented us).map (fun t => t.lexeme.spelling))
    {nodes : List Statement} (hnodes : ofSource source = .ok nodes) :
    ∃ nodes', ofSource source' = .ok nodes' ∧
      View.treesOnly.statements nodes' = View.treesOnly.statements nodes := by
  obtain ⟨tokens, c, hcheck, hscan, hread⟩ := ofSource_eq_ok_iff.mp hnodes
  obtain rfl : ts = tokens :=
    Except.ok.inj (hts.symm.trans (Token.ofSource_eq_ok.mpr ⟨hcheck, hscan⟩))
  obtain ⟨hcheck', hscan'⟩ := Token.ofSource_eq_ok.mp hus
  have hlength : (Token.uncommented ts).length = (Token.uncommented us).length := by
    simpa using congrArg List.length h
  let ps := (Token.uncommented ts).zip (Token.uncommented us)
  have hfst : ps.map Prod.fst = Token.uncommented ts := List.map_fst_zip hlength.le
  have hsnd : ps.map Prod.snd = Token.uncommented us := List.map_snd_zip hlength.ge
  have halike : ∀ p ∈ ps, p.1.lexeme.Alike p.2.lexeme := by
    intro p hp
    refine Lexeme.alike_of_spelling ?_
    rw [← hfst, ← hsnd, List.map_map, List.map_map] at h
    exact List.map_inj_left.mp h p hp
  have hfacing : (treeTwin source source').Facing (.ofTokens source.toList (Token.uncommented ts))
      (.ofTokens source'.toList (Token.uncommented us)) :=
    ⟨rfl, rfl, ⟨ps, hfst.symm, by simp [Cursor.ofTokens, treeTwin, hsnd],
      mirror_layout hts hus hfst hsnd halike⟩, [], Token.balanced_of_check hcheck hscan⟩
  have hempty : ∀ k ≥ 1, ∀ x : Cursor, x.source = (treeTwin source source').text' →
      x.ahead = (treeTwin source source').tail →
      ∃ c₂, readList k .endOfText x = .ok ([], c₂) := fun k hk x _ hx => exists_readList_nil hk hx
  obtain ⟨nodes', c', hread', hsame⟩ :=
    readList_mirror (fun t ht => by cases ht) hempty Nat.zero_lt_one
      (show (Token.uncommented ts).length + 1 + 1 ≤ (Token.uncommented us).length + 1 + 1 by omega)
      hfacing hread
  rw [List.append_nil] at hread'
  exact ⟨nodes', ofSource_eq_ok_iff.mpr ⟨us, c', hcheck', hscan', hread'⟩, hsame⟩

end Statement

end PipelineScript
