import Mathlib
import PipelineScript.Proofs.Statement.ReadPrintable

/-! # The names that statements bind

A statement binds names in its own right: the local name of an import, the variable of a
declaration, the result of a task block, the item of a loop, the parameters of a function. Main
statement: all of them are names of a script if the statements are read from a text
(`Statement.binders_of_ofSource`). No such name begins with a dollar sign. -/

namespace PipelineScript

/-- Names of the system begin with a dollar sign. -/
def IsSystemName (name : String) : Prop := name.toList.head? = some '$'

theorem IsName.not_isSystemName {name : String} (h : IsName name) : ¬ IsSystemName name := by
  obtain ⟨-, c, body, hname, hc, -⟩ := h
  intro hs
  rw [IsSystemName, hname] at hs
  obtain rfl := Option.some.inj hs
  cases hc

/-- The names that a statement of the kind binds, apart from those of its body. -/
def Kind.binders : Kind → List String
  | importPath _ localName => [localName]
  | declare name _ _ | assign name _ => [name]
  | taskBlock target _ => [target]
  | forLoop variable_ _ => [variable_]
  | function name params => name :: params
  | _ => []

theorem Kind.Printable.binders {kind : Kind} (h : kind.Printable) :
    ∀ name ∈ kind.binders, IsName name := by
  cases kind with
  | importPath path localName => simpa [Kind.binders] using h.2
  | declare name declaredType value => simpa [Kind.binders] using h.1
  | assign name value => simpa [Kind.binders] using h.1
  | taskBlock target tasks => simpa [Kind.binders] using h.1
  | forLoop variable_ iterable => simpa [Kind.binders] using h.1
  | function name params => exact List.forall_mem_cons.mpr ⟨h.1, h.2.2⟩
  | _ => simp [Kind.binders]

namespace Statement

/-- The kinds of all statements of the tree have the property. -/
inductive Every (P : Kind → Prop) : Statement → Prop
  | intro {s : Statement} : P s.kind → (∀ t ∈ s.children, Every P t) → Every P s

namespace Every

variable {P Q : Kind → Prop} {s t : Statement}

theorem kind (h : s.Every P) : P s.kind := by
  cases h; assumption

theorem children (h : s.Every P) : ∀ t ∈ s.children, t.Every P := by
  cases h; assumption

theorem mono (hPQ : ∀ k, P k → Q k) (h : s.Every P) : s.Every Q := by
  induction h with
  | intro hkind _ ih => exact .intro (hPQ _ hkind) ih

theorem and (h : s.Every P) (h' : s.Every Q) : s.Every fun k => P k ∧ Q k := by
  induction h with
  | intro hkind _ ih => exact .intro ⟨hkind, h'.kind⟩ fun t ht => ih t ht (h'.children t ht)

end Every

/-- What can be printed has kinds that can be printed. -/
theorem Printable.every {place : Place} {s : Statement} (h : s.Printable place) :
    s.Every Kind.Printable := by
  induction h with
  | line h => exact .intro h.printable (List.forall_mem_nil _)
  | block kind _ _ _ h _ ih => exact .intro h ih
  | conditional _ _ _ hfirst hfurther hlast =>
    refine .intro trivial (List.forall_mem_cons.mpr ⟨hfirst, ?_⟩)
    refine List.forall_mem_append.mpr ⟨hfurther, fun s hs => hlast s ?_⟩
    exact Option.mem_toList.mp hs

/-- Statements that are read from a text bind no other names than those that a script may bind. -/
theorem binders_of_ofSource {source : String} {nodes : List Statement}
    (h : ofSource source = .ok nodes) :
    ∀ s ∈ nodes, s.Every fun k => ∀ name ∈ k.binders, IsName name :=
  fun s hs => (printable_of_ofSource h s hs).every.mono fun _ hk => hk.binders

end Statement

end PipelineScript
