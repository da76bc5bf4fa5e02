import PipelineScript.Proofs.Statement.Printer
import PipelineScript.Proofs.Token.Nesting
import PipelineScript.Proofs.Token.Words

/-! # What is printed

Whatever the tree, the brackets of its print nest (`Statement.nests_items`), and no word or
expression stands beside something that could carry it on (`Statement.fits_items`). -/

namespace PipelineScript

namespace PrintItem

/-! ## Brackets -/

/-- What the item means for the brackets of the print. -/
def bracket : PrintItem → Lexeme
  | mark p => .punct p
  | _ => .lineEnd false

def isBracket (p : PrintItem) : Bool :=
  p.bracket.opened?.isSome || p.bracket.closed?.isSome

/-- The brackets of the items nest, and none is left open. -/
def Nests (items : List PrintItem) : Prop :=
  ∀ stack, Lexeme.nest stack (items.map bracket) = some stack

theorem nests_nil : Nests [] := fun _ => rfl

theorem Nests.append {items more : List PrintItem} (h : Nests items) (h' : Nests more) :
    Nests (items ++ more) := by
  intro stack
  rw [List.map_append, Lexeme.nest_append, h stack, Option.bind_some, h' stack]

theorem Nests.cons {p : PrintItem} {items : List PrintItem} (hp : p.isBracket = false)
    (h : Nests items) : Nests (p :: items) := by
  obtain ⟨ho, hc⟩ := Bool.or_eq_false_iff.mp hp
  rw [Option.isSome_eq_false_iff, Option.isNone_iff_eq_none] at ho hc
  intro stack
  rw [List.map_cons, Lexeme.nest_cons, Lexeme.nestOne_of_none ho hc, Option.bind_some, h stack]

/-- Items behind others that are no brackets. -/
theorem Nests.after (words : List PrintItem) {items : List PrintItem}
    (hw : words.any isBracket = false) (h : Nests items) : Nests (words ++ items) := by
  induction words with
  | nil => exact h
  | cons p words ih =>
    obtain ⟨hp, hw⟩ := Bool.or_eq_false_iff.mp hw
    exact .cons hp (ih hw)

/-- Items in brackets. -/
theorem Nests.enclose {b : Bracket} {items : List PrintItem} (h : Nests items)
    (first last : PrintItem) (hfirst : first.bracket.opened? = some b)
    (hlast : last.bracket.closed? = some b) : Nests (first :: (items ++ [last])) := by
  intro stack
  rw [List.map_cons, Lexeme.nest_cons, Lexeme.nestOne_of_opened hfirst, Option.bind_some,
    List.map_append, Lexeme.nest_append, h, Option.bind_some, List.map_singleton, Lexeme.nest_cons,
    (Lexeme.nestOne_of_closed hlast).mpr rfl]
  rfl

theorem nests_braced {body : List PrintItem} (h : Nests body) : Nests (braced body) := by
  have hfeed : Nests (body ++ [feed]) := h.append (.cons rfl nests_nil)
  have hall := hfeed.enclose (mark .openBrace) (mark .closeBrace) rfl rfl
  rwa [List.append_assoc] at hall

theorem nests_parenthesized (e : SourceExpr) : Nests (parenthesized e) := fun _ => rfl

theorem nests_closed {items : List PrintItem} (h : items.any isBracket = false) :
    Nests (mark .openParen :: closed items) := by
  have hfurther : ∀ items : List PrintItem, items.any isBracket = false →
      ∃ inner, closed.further items = inner ++ [mark .closeParen] ∧ Nests inner := by
    intro items h
    induction items with
    | nil => exact ⟨[], rfl, nests_nil⟩
    | cons p items ih =>
      obtain ⟨hp, hitems⟩ := Bool.or_eq_false_iff.mp h
      obtain ⟨inner, heq, hinner⟩ := ih hitems
      refine ⟨mark .comma :: space :: p :: inner, by rw [closed.further, heq]; rfl, ?_⟩
      exact .after [_, _] rfl (.cons hp hinner)
  cases items with
  | nil => exact fun _ => rfl
  | cons p items =>
    obtain ⟨hp, hitems⟩ := Bool.or_eq_false_iff.mp h
    obtain ⟨inner, heq, hinner⟩ := hfurther items hitems
    rw [closed, heq]
    exact (Nests.cons hp hinner).enclose (mark .openParen) (mark .closeParen) rfl rfl

theorem any_isBracket_map {α : Type} {f : α → PrintItem} (h : ∀ a, (f a).isBracket = false)
    (as : List α) : (as.map f).any isBracket = false := by
  simp [h]

end PrintItem

open PrintItem

theorem Invocation.nests_items (call : Invocation) : Nests call.items :=
  .cons rfl (nests_closed (any_isBracket_map (fun _ => rfl) call.args))

theorem Source.nests_items (s : Source) : Nests s.items := by
  cases s with
  | expr | invoke => exact fun _ => rfl
  | run call => exact .after [_, _] rfl call.nests_items

theorem Iterable.nests_items (i : Iterable) : Nests i.items := by
  cases i with
  | range start stop inclusive => cases inclusive <;> exact fun _ => rfl
  | each e => exact fun _ => rfl

theorem TaskEntry.nests_items (entries : List TaskEntry) :
    Nests (entries.flatMap TaskEntry.items) := by
  induction entries with
  | nil => exact nests_nil
  | cons entry entries ih => exact (Nests.after [_, _, _, _] rfl entry.call.nests_items).append ih

theorem Kind.nests_items {body : List PrintItem} (h : Nests body) (kind : Kind) :
    Nests (kind.items body) := by
  have hblock : Nests (space :: braced body) := .cons rfl (nests_braced h)
  cases kind with
  | importPath | breakLoop | breakAll | continueLoop | echo | exportValue => exact fun _ => rfl
  | declare target declaredType value =>
    refine .after [_, _, _] rfl (.append ?_ ?_)
    · cases declaredType <;> exact fun _ => rfl
    · cases value with
      | none => exact nests_nil
      | some value => exact .after [_, _, _] rfl value.nests_items
  | assign target value => exact .after [_, _, _, _] rfl value.nests_items
  | run call => exact .after [_, _] rfl call.nests_items
  | taskBlock target tasks =>
    exact .after [_, _, _, _] rfl (nests_braced (TaskEntry.nests_items tasks))
  | conditional => exact h
  | branch condition | switch subject | whileLoop condition =>
    exact .after [_, _] rfl ((nests_parenthesized _).append hblock)
  | otherwise => exact nests_braced h
  | case_ value => exact .after [_, _, _, _] rfl h
  | fallback => exact .after [_, _] rfl h
  | forLoop variable_ iterable =>
    exact .after [_, _, _, _, _, _] rfl (iterable.nests_items.append hblock)
  | returnValue value => cases value <;> exact fun _ => rfl
  | function defined params =>
    have hparams := nests_closed (any_isBracket_map (f := PrintItem.name) (fun _ => rfl) params)
    exact .after [_, _, _] rfl (hparams.append hblock)
  | call call => exact call.nests_items

namespace Statement

mutual

theorem nests_items : ∀ s : Statement, Nests s.items
  | ⟨kind, shape, line, children⟩ => by
    by_cases hc : kind = .conditional
    · subst hc
      cases children with
      | nil => exact nests_nil
      | cons first more =>
        rw [items_conditional]
        exact (nests_items first).append (nests_itemsOf (fun _ => rfl) more)
    · rw [items_of_ne hc]
      exact kind.nests_items (nests_itemsOf (fun _ => rfl) children)

theorem nests_itemsOf {before : List PrintItem} (h : Nests before) :
    ∀ ss : List Statement, Nests (itemsOf before ss)
  | [] => by rw [itemsOf_nil]; exact nests_nil
  | s :: ss => by
    rw [itemsOf_cons]
    exact (h.append (nests_items s)).append (nests_itemsOf h ss)

end

end Statement

/-! ## Words beside each other -/

namespace PrintItem

/-- Could more characters carry the item on? -/
def isOpen : PrintItem → Bool
  | keyword _ | name _ | path _ | expr _ => true
  | mark p => !p.isLone
  | _ => false

/-- Does the item begin with a character that carries nothing on? -/
def bounds : PrintItem → Bool
  | key _ | lines _ | space | feed => true
  | mark p => p.isLone
  | _ => false

/-- Is no item carried on by the next one? -/
def fits : List PrintItem → Bool
  | p :: q :: items => (!p.isOpen || q.bounds) && fits (q :: items)
  | _ => true

variable {items more : List PrintItem}

theorem fits_append (h : fits items = true) (h' : fits more = true)
    (hends : items.getLast?.any isOpen = false ∨ more.head?.all bounds = true) :
    fits (items ++ more) = true := by
  induction items with
  | nil => exact h'
  | cons p items ih =>
    cases items with
    | nil =>
      cases more with
      | nil => rfl
      | cons q more =>
        refine Bool.and_eq_true_iff.mpr ⟨Bool.or_eq_true_iff.mpr ?_, h'⟩
        exact hends.imp (fun hp => by rw [show p.isOpen = false from hp]; rfl) id
    | cons q items =>
      obtain ⟨hp, hitems⟩ := Bool.and_eq_true_iff.mp h
      exact Bool.and_eq_true_iff.mpr ⟨hp, ih hitems (by rwa [List.getLast?_cons_cons] at hends)⟩

/-- Items behind others of which the last one is closed. -/
theorem fits_after (words : List PrintItem)
    (hw : (fits words && !words.getLast?.any isOpen) = true) (h : fits items = true) :
    fits (words ++ items) = true := by
  obtain ⟨hw, hlast⟩ := Bool.and_eq_true_iff.mp hw
  exact fits_append hw h (.inl (by simpa using hlast))

theorem fits_braced {body : List PrintItem} (h : fits body = true) : fits (braced body) = true :=
  fits_after [_] rfl (fits_append h rfl (.inr rfl))

theorem fits_parenthesized (e : SourceExpr) : fits (parenthesized e) = true := rfl

theorem fits_closed (items : List PrintItem) : fits (closed items) = true := by
  have hfurther : ∀ items : List PrintItem, fits (closed.further items) = true ∧
      (closed.further items).head?.all bounds = true := by
    intro items
    induction items with
    | nil => exact ⟨rfl, rfl⟩
    | cons p items ih =>
      have hp : fits ([p] ++ closed.further items) = true := fits_append rfl ih.1 (.inr ih.2)
      exact ⟨fits_after [_, _] rfl hp, rfl⟩
  cases items with
  | nil => rfl
  | cons p items =>
    have hp : fits ([p] ++ closed.further items) = true :=
      fits_append rfl (hfurther items).1 (.inr (hfurther items).2)
    exact hp

end PrintItem

theorem Invocation.fits_items (call : Invocation) : fits call.items = true :=
  fits_after [_, _] rfl (fits_closed _)

theorem Source.fits_items (s : Source) : fits s.items = true := by
  cases s with
  | expr | invoke => rfl
  | run call => exact fits_after [_, _] rfl call.fits_items

theorem Iterable.fits_items (i : Iterable) : fits i.items = true := by
  cases i with
  | range start stop inclusive => cases inclusive <;> rfl
  | each e => rfl

theorem TaskEntry.fits_items (entries : List TaskEntry) :
    fits (entries.flatMap TaskEntry.items) = true := by
  induction entries with
  | nil => rfl
  | cons entry entries ih =>
    refine fits_append (fits_after [_, _, _, _] rfl entry.call.fits_items) ih (.inr ?_)
    cases entries <;> rfl

theorem Kind.fits_items {body : List PrintItem} (h : fits body = true) (kind : Kind) :
    fits (kind.items body) = true := by
  have hblock : fits (space :: braced body) = true := fits_after [_] rfl (fits_braced h)
  cases kind with
  | importPath | breakLoop | breakAll | continueLoop | echo | exportValue => rfl
  | declare target declaredType value =>
    have hvalue : fits (valueItems value) = true := by
      cases value with
      | none => rfl
      | some value => exact fits_after [_, _, _, _] rfl value.fits_items
    cases declaredType with
    | none =>
      have hhead : fits [keyword .declare, space, .name target] = true := rfl
      refine fits_append hhead hvalue (.inr ?_)
      cases value <;> rfl
    | some declaredType =>
      have hhead : fits [keyword .declare, space, .name target, mark .colon, space,
        .path declaredType] = true := rfl
      refine fits_append hhead hvalue (.inr ?_)
      cases value <;> rfl
  | assign target value => exact fits_after [_, _, _, _] rfl value.fits_items
  | run call => exact fits_after [_, _] rfl call.fits_items
  | taskBlock target tasks =>
    exact fits_after [_, _, _, _] rfl (fits_braced (TaskEntry.fits_items tasks))
  | conditional => exact h
  | branch condition | switch subject | whileLoop condition =>
    exact fits_after [_, _] rfl (fits_append (fits_parenthesized _) hblock (.inr rfl))
  | otherwise => exact fits_braced h
  | case_ value => exact fits_after [_, _, _, _] rfl h
  | fallback => exact fits_after [_, _] rfl h
  | forLoop variable_ iterable =>
    exact fits_after [_, _, _, _, _, _] rfl (fits_append iterable.fits_items hblock (.inr rfl))
  | returnValue value => cases value <;> rfl
  | function defined params =>
    exact fits_after [_, _, _, _] rfl (fits_append (fits_closed _) hblock (.inr rfl))
  | call call => exact call.fits_items

namespace Statement

theorem head?_itemsOf {before : List PrintItem} (h : before.head?.any bounds = true)
    (ss : List Statement) : (itemsOf before ss).head?.all bounds = true := by
  cases ss with
  | nil => rw [itemsOf_nil]; rfl
  | cons s ss =>
    rw [itemsOf_cons]
    cases before with
    | nil => cases h
    | cons p before => exact h

mutual

theorem fits_items : ∀ s : Statement, fits s.items = true
  | ⟨kind, shape, line, children⟩ => by
    by_cases hc : kind = .conditional
    · subst hc
      cases children with
      | nil => rfl
      | cons first more =>
        rw [items_conditional]
        exact fits_append (fits_items first) (fits_itemsOf rfl rfl more)
          (.inr (head?_itemsOf rfl more))
    · rw [items_of_ne hc]
      exact kind.fits_items (fits_itemsOf rfl rfl children)

theorem fits_itemsOf {before : List PrintItem} (hfirst : before.head?.any bounds = true)
    (h : (fits before && !before.getLast?.any isOpen) = true) :
    ∀ ss : List Statement, fits (itemsOf before ss) = true
  | [] => by rw [itemsOf_nil]; rfl
  | s :: ss => by
    rw [itemsOf_cons]
    exact fits_append (fits_after before h (fits_items s)) (fits_itemsOf hfirst h ss)
      (.inr (head?_itemsOf hfirst ss))

end

theorem nests_script (ss : List Statement) : Nests (script ss) := by
  cases ss with
  | nil => exact nests_nil
  | cons s ss =>
    exact ((nests_items s).append (nests_itemsOf (fun _ => rfl) ss)).append (fun _ => rfl)

theorem fits_script (ss : List Statement) : fits (script ss) = true := by
  cases ss with
  | nil => rfl
  | cons s ss =>
    refine fits_append (fits_append (fits_items s) (fits_itemsOf rfl rfl ss) ?_) rfl (.inr rfl)
    exact .inr (head?_itemsOf rfl ss)

end Statement

end PipelineScript
