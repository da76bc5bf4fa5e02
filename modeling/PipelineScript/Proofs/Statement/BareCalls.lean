import Mathlib
import PipelineScript.Proofs.Evaluation.Trees
import PipelineScript.Proofs.Statement.Layout
import PipelineScript.Proofs.Statement.Places
import PipelineScript.Proofs.Statement.ReadPrintable

/-! # The two readings of a bare call

A bare call is kept as an invocation, in case its name is that of a function or a task, and as the
text of an expression, in case it is that of a builtin. The invocation was cut at the commas outside
of brackets, the text is read as one expression. Main statement: both readings have the same name
and the same arguments, and the builtin gives what it gives for the values of the arguments
(`Statement.bareCall_agrees`). -/

namespace PipelineScript

open Token

/-- The value of a call of a builtin, with its arguments evaluated from left to right. -/
def Invocation.builtinValue (call : Invocation) (vars : String → Option Value) :
    Except EvalFault Value := do
  Expression.callNamed call.name (← call.args.mapM fun arg => Expression.valueOf arg.source vars)

/-- What a statement of the kind stores. -/
def Kind.value? : Kind → Option Source
  | declare _ _ value => value
  | assign _ value => some value
  | _ => none

theorem toOption_eq_some_iff {ε α : Type} {r : Except ε α} {a : α} :
    r.toOption = some a ↔ r = .ok a := by
  cases r <;> simp [Except.toOption]

theorem Kind.Printable.value? {k : Kind} (h : k.Printable) {s : Source} (hs : k.value? = some s) :
    s.Printable := by
  cases k with
  | declare => exact h.2.2 s hs
  | assign => cases hs; exact h.2
  | _ => cases hs

namespace SourceExpr

/-- The trees of some expressions, one by one. -/
def HaveTrees (es : List SourceExpr) (trees : List Expression) : Prop :=
  List.Forall₂ (fun e tree => Expression.ofSource e.source = .ok tree) es trees

variable {es : List SourceExpr} {trees : List Expression}

theorem exists_haveTrees_iff :
    (∃ trees, HaveTrees es trees) ↔ ∀ e ∈ es, ∃ tree, Expression.ofSource e.source = .ok tree := by
  induction es with
  | nil => simp [HaveTrees]
  | cons e es ih =>
    rw [List.forall_mem_cons, ← ih]
    simp only [HaveTrees, List.forall₂_cons_left_iff]
    grind

end SourceExpr

namespace Expression

open SourceExpr

variable {source : String} {tree : Expression} {es : List SourceExpr} {trees : List Expression}

theorem valueOf_of_ofSource (h : ofSource source = .ok tree) (vars : String → Option Value) :
    valueOf source vars = tree.eval vars := by
  rw [valueOf, h]
  rfl

theorem exists_ofSource_of_valueOf {vars : String → Option Value} {v : Value}
    (h : valueOf source vars = .ok v) : ∃ tree, ofSource source = .ok tree := by
  cases hs : ofSource source with
  | ok tree => exact ⟨tree, rfl⟩
  | error fault =>
    rw [valueOf, hs] at h
    cases h

theorem mapM_valueOf (h : HaveTrees es trees) (vars : String → Option Value) :
    (es.mapM fun e => valueOf e.source vars) = evalAll vars trees := by
  induction h with
  | nil => rfl
  | cons he _ ih =>
    rw [List.mapM_cons, valueOf_of_ofSource he, ih]
    rfl

/-- Only expressions have values. -/
theorem exists_haveTrees_of_mapM {vars : String → Option Value} {vs : List Value}
    (h : (es.mapM fun e => valueOf e.source vars) = .ok vs) : ∃ trees, HaveTrees es trees := by
  induction es generalizing vs with
  | nil => exact ⟨[], .nil⟩
  | cons e es ih =>
    rw [List.mapM_cons] at h
    obtain ⟨v, hv, h⟩ := bind_eq_ok.mp h
    obtain ⟨rest, hrest, -⟩ := bind_eq_ok.mp h
    obtain ⟨tree, htree⟩ := exists_ofSource_of_valueOf hv
    obtain ⟨trees, htrees⟩ := ih hrest
    exact ⟨tree :: trees, .cons htree htrees⟩

end Expression

/-- Balanced tokens are all that an expression is read from. -/
theorem Token.ofSource_iff_of_scan {e : SourceExpr} {own : List Token}
    (h : scan 1 0 e.source.toList = .ok own) (hnest : Lexeme.nest [] (code own) = some [])
    {tree : Expression} :
    Expression.ofSource e.source = .ok tree ↔ Expression.ofLexemes (code own) = .ok tree := by
  have htree := Token.tree?_of_scan h
  rw [if_pos hnest, SourceExpr.tree?] at htree
  rw [← toOption_eq_some_iff, htree, toOption_eq_some_iff]

namespace Reading

variable {source : String} {own : List Token}

/-- An argument is read from its own text as from its tokens in the call. -/
theorem IsArgument.ofSource_iff {e : SourceExpr} {piece : List Token}
    (h : IsArgument source.toList (uncommented own) e piece)
    (hown : Token.ofSource source = .ok own) {tree : Expression} :
    Expression.ofSource e.source = .ok tree ↔ Expression.ofLexemes (Token.code piece) = .ok tree := by
  obtain ⟨own', hscan, hcode⟩ := Token.exists_scan_of_sourceOf? hown h.row h.source
  rw [← hcode]
  exact Token.ofSource_iff_of_scan hscan (by rw [hcode, h.undivided.nest])

theorem AreArguments.haveTrees_iff {args : List SourceExpr} {pieces : List (List Token)}
    {inner : List Token} (h : AreArguments source.toList (uncommented own) args pieces inner)
    (hown : Token.ofSource source = .ok own) {trees : List Expression} :
    List.Forall₂ (fun tree p => Expression.ofLexemes p = .ok tree) trees (pieces.map Token.code) ↔
      SourceExpr.HaveTrees args trees := by
  obtain ⟨heach, -⟩ := h
  rw [List.forall₂_map_right_iff]
  induction heach generalizing trees with
  | nil => simp [SourceExpr.HaveTrees]
  | cons he _ ih =>
    rw [SourceExpr.HaveTrees, List.forall₂_cons_left_iff, List.forall₂_cons_right_iff]
    simp only [ih, he.ofSource_iff hown]
    rfl

end Reading

namespace Statement

open Reading SourceExpr

/-- A call that fills a text has the tree of a call exactly if its arguments have trees. -/
theorem ofSource_bareCall_iff {e : SourceExpr} {own : List Token}
    (hown : Token.ofSource e.source = .ok own) {call : Invocation} {c : Cursor}
    (h : bareCall? (e.cursor own) = some (.invoke call e, c)) (hend : c.ahead = [])
    {tree : Expression} :
    Expression.ofSource e.source = .ok tree ↔
      ∃ trees, tree = .call call.name trees ∧ HaveTrees call.args trees := by
  obtain ⟨hat, _, _, heq, hcall, -⟩ := bareCall?_eq_some_iff.mp h
  cases heq
  obtain ⟨hcheck, hscan⟩ := Token.ofSource_eq_ok.mp hown
  have hbalanced := Token.balanced_of_check hcheck hscan
  have hwithin : Within e.source.toList (uncommented own) (e.cursor own) := ⟨rfl, List.suffix_refl _⟩
  obtain ⟨t, p, inner, q, pieces, hpass, ht, hp, hq, hargs⟩ :=
    takes_bareInvocation hbalanced hwithin hat hcall
  have hrow : uncommented own = t :: p :: (inner ++ [q]) := by
    have hahead := hpass.ahead
    rwa [hend, List.append_nil] at hahead
  have hcode : Token.code (uncommented own) = Token.code own := Token.code_filter own
  have hnest : Lexeme.nest [] (Token.code own) = some [] := by
    rw [← hcode, Lexeme.nest_code]
    exact hbalanced
  have hpieces : ∀ p ∈ pieces.map Token.code, p ≠ [] ∧ Lexeme.Undivided p := by
    refine List.forall_mem_map.mpr fun piece hpiece => ?_
    obtain ⟨arg, harg⟩ := hargs.isArgument piece hpiece
    refine ⟨harg.code_ne_nil fun t ht => ?_, harg.undivided⟩
    simpa using (List.mem_filter.mp ht).2
  rw [Token.ofSource_iff_of_scan hscan hnest, ← hcode, hrow, hargs.code_eq ht hp hq,
    Expression.ofLexemes_call_iff hpieces]
  simp only [hargs.haveTrees_iff hown]

/-- A bare call that was read, as an expression, is one exactly if each of its arguments is. It is
then the call of the same name, without dots, with the trees of the arguments in order, and it has
the value or the fault of the builtin that is given the values of the arguments, from left to right.
When it is none, neither of the two has a value. -/
theorem bareCall_agrees {source : String} {nodes above : List Statement} {s : Statement}
    {call : Invocation} {e : SourceExpr} (h : ofSource source = .ok nodes)
    (hs : Occurs nodes above s) (hvalue : s.kind.value? = some (.invoke call e)) :
    '.' ∉ call.name.toList ∧
      ((∃ tree, Expression.ofSource e.source = .ok tree) ↔
        ∀ arg ∈ call.args, ∃ tree, Expression.ofSource arg.source = .ok tree) ∧
      (∀ tree, Expression.ofSource e.source = .ok tree ↔
        ∃ trees, tree = .call call.name trees ∧ HaveTrees call.args trees) ∧
      ∀ vars,
        ((∃ tree, Expression.ofSource e.source = .ok tree) →
          Expression.valueOf e.source vars = call.builtinValue vars) ∧
        ∀ v, Expression.valueOf e.source vars = .ok v ↔ call.builtinValue vars = .ok v := by
  obtain ⟨place, hprintable⟩ := Printable.exists_of_occurs (printable_of_ofSource h) hs
  obtain ⟨own, c, hown, hcall, hend⟩ :=
    Kind.Printable.value? hprintable.kind_printable hvalue
  have hname : IsName call.name := by
    obtain ⟨hat, _, _, heq, hinvocation, -⟩ := bareCall?_eq_some_iff.mp hcall
    cases heq
    exact isName_of_isAtInvocation (coded_of_owns hown) ⟨rfl, List.suffix_refl _⟩ hat hinvocation
  have htree (tree : Expression) : Expression.ofSource e.source = .ok tree ↔
      ∃ trees, tree = .call call.name trees ∧ HaveTrees call.args trees :=
    ofSource_bareCall_iff hown.tokens hcall hend
  have hparsed : (∃ tree, Expression.ofSource e.source = .ok tree) ↔
      ∃ trees, HaveTrees call.args trees := by
    simp only [htree]
    exact ⟨fun ⟨_, trees, _, h⟩ => ⟨trees, h⟩, fun ⟨trees, h⟩ => ⟨_, trees, rfl, h⟩⟩
  have hsame {vars : String → Option Value}
      (hp : ∃ tree, Expression.ofSource e.source = .ok tree) :
      Expression.valueOf e.source vars = call.builtinValue vars := by
    obtain ⟨trees, htrees⟩ := hparsed.mp hp
    rw [Expression.valueOf_of_ofSource ((htree _).mpr ⟨trees, rfl, htrees⟩), Invocation.builtinValue,
      Expression.mapM_valueOf htrees]
    rfl
  refine ⟨hname.dot_not_mem, hparsed.trans exists_haveTrees_iff, htree,
    fun vars => ⟨hsame, fun v => ⟨fun hv => ?_, fun hv => ?_⟩⟩⟩
  · rwa [← hsame (Expression.exists_ofSource_of_valueOf hv)]
  · obtain ⟨vs, hvs, -⟩ := Expression.bind_eq_ok.mp hv
    rwa [hsame (hparsed.mpr (Expression.exists_haveTrees_of_mapM hvs))]

/-- A comma in brackets divides nothing. -/
theorem bareCall_agrees_contains :
    let source := "x = contains([1, 2], 2)"
    let call : Invocation := ⟨"contains", [⟨"[1, 2]"⟩, ⟨"2"⟩]⟩
    let e : SourceExpr := ⟨"contains([1, 2], 2)"⟩
    let s := ofLine (.assign "x" (.invoke call e)) 1
    ofSource source = .ok [s] ∧ Occurs [s] [] s ∧ s.kind.value? = some (.invoke call e) ∧
      '.' ∉ call.name.toList ∧
      ((∃ tree, Expression.ofSource e.source = .ok tree) ↔
        ∀ arg ∈ call.args, ∃ tree, Expression.ofSource arg.source = .ok tree) ∧
      (∀ tree, Expression.ofSource e.source = .ok tree ↔
        ∃ trees, tree = .call call.name trees ∧ HaveTrees call.args trees) ∧
      ∀ vars,
        ((∃ tree, Expression.ofSource e.source = .ok tree) →
          Expression.valueOf e.source vars = call.builtinValue vars) ∧
        ∀ v, Expression.valueOf e.source vars = .ok v ↔ call.builtinValue vars = .ok v := by
  intro source call e s
  have hs : ofSource source = .ok [s] := by cbv
  have hoccurs : Occurs [s] [] s := .top (List.mem_singleton_self s)
  exact ⟨hs, hoccurs, rfl, bareCall_agrees hs hoccurs rfl⟩

end Statement

end PipelineScript
