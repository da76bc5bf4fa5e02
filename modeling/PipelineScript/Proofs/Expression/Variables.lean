import PipelineScript.Evaluation
import PipelineScript.Proofs.Expression.Climbing

/-! # The variables of an expression

The value of an expression depends on the values of its variables alone (`eval_congr`), and these
are names among the lexemes that the expression is read from (`freeNames_of_ofLexemes`). -/

namespace PipelineScript

namespace Lexeme

/-- The name that the lexeme is, one of a script or one of the system. -/
def name? : Lexeme → Option String
  | ident name | systemIdent name => some name
  | _ => none

/-- The names in a row of lexemes. -/
def namesOf (ts : List Lexeme) : List String := ts.filterMap name?

@[simp] theorem namesOf_append (ts us : List Lexeme) :
    namesOf (ts ++ us) = namesOf ts ++ namesOf us := List.filterMap_append

@[simp] theorem namesOf_punct (p : Punct) (ts : List Lexeme) :
    namesOf (punct p :: ts) = namesOf ts := rfl

@[simp] theorem namesOf_ident (name : String) (ts : List Lexeme) :
    namesOf (ident name :: ts) = name :: namesOf ts := rfl

theorem namesOf_subset {ts us : List Lexeme} (h : ts ⊆ us) : namesOf ts ⊆ namesOf us := by
  intro name hname
  obtain ⟨l, hl, hn⟩ := List.mem_filterMap.mp hname
  exact List.mem_filterMap.mpr ⟨l, h hl, hn⟩

end Lexeme

namespace Expression

mutual

def freeNames : Expression → List String
  | literal _ => []
  | variable_ name => [name]
  | list items => freeNamesOf items
  | unary _ operand => operand.freeNames
  | binary _ left right => left.freeNames ++ right.freeNames
  | choice condition yes no => condition.freeNames ++ (yes.freeNames ++ no.freeNames)
  | field target _ => target.freeNames
  | item target index => target.freeNames ++ index.freeNames
  | call _ args => freeNamesOf args

def freeNamesOf : List Expression → List String
  | [] => []
  | e :: rest => e.freeNames ++ freeNamesOf rest

end

/-! ## Values -/

mutual

/-- Where its variables have the same values, so has the expression. -/
theorem eval_congr {vars vars' : String → Option Value} :
    ∀ e : Expression, (∀ name ∈ e.freeNames, vars' name = vars name) →
      e.eval vars' = e.eval vars
  | literal _, _ => rfl
  | variable_ name, h => by
    unfold eval
    rw [h name (List.mem_singleton_self _)]
  | list items, h => by
    unfold eval
    rw [evalAll_congr items h]
  | unary op operand, h => by
    unfold eval
    rw [eval_congr operand h]
  | binary op left right, h => by
    obtain ⟨hleft, hright⟩ := List.forall_mem_append.mp h
    unfold eval
    rw [eval_congr left hleft, eval_congr right hright]
  | choice condition yes no, h => by
    obtain ⟨hcondition, h⟩ := List.forall_mem_append.mp h
    obtain ⟨hyes, hno⟩ := List.forall_mem_append.mp h
    unfold eval
    rw [eval_congr condition hcondition, eval_congr yes hyes, eval_congr no hno]
  | field target name, h => by
    unfold eval
    rw [eval_congr target h]
  | item target index, h => by
    obtain ⟨htarget, hindex⟩ := List.forall_mem_append.mp h
    unfold eval
    rw [eval_congr target htarget, eval_congr index hindex]
  | call name args, h => by
    unfold eval
    rw [evalAll_congr args h]

theorem evalAll_congr {vars vars' : String → Option Value} :
    ∀ es : List Expression, (∀ name ∈ freeNamesOf es, vars' name = vars name) →
      evalAll vars' es = evalAll vars es
  | [], _ => rfl
  | e :: rest, h => by
    obtain ⟨he, hrest⟩ := List.forall_mem_append.mp h
    unfold evalAll
    rw [eval_congr e he, evalAll_congr rest hrest]

end

/-! ## Names -/

def Phrase.freeNames : Phrase → List String
  | choice e | chain _ e | signed e | access e | atom e => e.freeNames
  | list es | items es => freeNamesOf es

theorem append_subset_append {α : Type} {as bs cs ds : List α} (h : as ⊆ cs) (h' : bs ⊆ ds) :
    as ++ bs ⊆ cs ++ ds :=
  List.append_subset.mpr ⟨List.Subset.trans h (List.subset_append_left _ _),
    List.Subset.trans h' (List.subset_append_right _ _)⟩

open Lexeme in
/-- The variables of a phrase are names in its row of lexemes. The row may have other names, those
of fields and of functions. -/
theorem Derives.freeNames {p : Phrase} {ts : List Lexeme} (h : Derives p ts) :
    p.freeNames ⊆ namesOf ts := by
  induction h with
  | plain _ ih | operand _ ih | tighter _ ih | unsigned _ ih | whole _ ih | some _ ih => exact ih
  | negate _ ih | not _ ih => exact ih
  | int | float | str | true_ | false_ | null | none => exact List.nil_subset _
  | variable_ | systemVariable => exact List.Subset.refl _
  | choice _ _ _ ihc ihy ihn =>
    rw [namesOf_append, namesOf_punct, namesOf_append, namesOf_punct]
    exact append_subset_append ihc (append_subset_append ihy ihn)
  | binary _ _ _ ihl ihr =>
    rw [namesOf_append, namesOf_punct]
    exact append_subset_append ihl ihr
  | fieldIdent _ ih | fieldKeyword _ ih =>
    rw [namesOf_append]
    exact List.Subset.trans ih (List.subset_append_left _ _)
  | item _ _ ih ihi =>
    rw [namesOf_append, namesOf_punct, namesOf_append]
    exact append_subset_append ih (List.Subset.trans ihi (List.subset_append_left _ _))
  | call _ ih =>
    simp only [namesOf_ident, namesOf_punct, namesOf_append]
    exact List.Subset.trans ih
      (List.Subset.trans (List.subset_append_left _ _) (List.subset_cons_self _ _))
  | listed _ ih | parens _ ih =>
    simp only [namesOf_punct, namesOf_append]
    exact List.Subset.trans ih (List.subset_append_left _ _)
  | last _ ih => simpa [Phrase.freeNames, freeNamesOf] using ih
  | more _ _ ih ihs =>
    rw [namesOf_append, namesOf_punct]
    exact append_subset_append ih ihs

theorem freeNames_of_ofLexemes {ts : List Lexeme} {e : Expression} (h : ofLexemes ts = .ok e) :
    e.freeNames ⊆ Lexeme.namesOf ts :=
  (ofLexemes_eq_ok_iff_derives.mp h).freeNames

end Expression

end PipelineScript
