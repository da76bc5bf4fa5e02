import Mathlib
import PipelineScript.Proofs.Statement.Spelling
import PipelineScript.Statement.Reader

/-! # Trees that can be printed

A tree can be printed when its names are names, its expressions are expressions on their own, and
its statements stand where they can be read. Every item of its print can then be read again
(`Statement.Printable.valid_items`). -/

namespace PipelineScript

open Token PrintItem

namespace SourceExpr

/-- The whole text is one expression, without a token outside of brackets that `stop` accepts. -/
structure Fills (stop : Token → Bool) (e : SourceExpr) (own : List Token) : Prop
    extends e.Owns own where
  slice : Cursor.sourceOf? e.source.toList (uncommented own) = some e
  length : expressionLength stop 0 (uncommented own) = (uncommented own).length

/-- An expression that ends before a token that `stop` accepts. -/
def Before (stop : Token → Bool) (e : SourceExpr) : Prop := ∃ own, Fills stop e own

/-- An expression that ends with its statement. -/
def OnLine (e : SourceExpr) : Prop := e.Before fun _ => false

/-- An expression in parentheses. -/
structure Enclosed (e : SourceExpr) : Prop where
  tokens : ∃ own, Token.ofSource e.source = .ok own
  trimmed : Text.Trimmed e.source.toList

end SourceExpr

structure Invocation.Printable (call : Invocation) : Prop where
  name : IsPath call.name
  args : ∀ e ∈ call.args, e.Before fun t => t.isPunct .comma

def Source.Printable : Source → Prop
  | expr e => ∃ own, e.Fills (fun _ => false) own ∧
      (e.cursor own).isAtKeyword .run = false ∧ Statement.bareCall? (e.cursor own) = none
  | run call => call.Printable
  | invoke call e => ∃ own c, e.Owns own ∧
      Statement.bareCall? (e.cursor own) = some (invoke call e, c) ∧ c.ahead = []

def Iterable.Printable : Iterable → Prop
  | range start stop _ =>
    (∃ own, start.Fills (fun _ => false) own ∧ splitRange? 0 (uncommented own) = none) ∧
      stop.OnLine
  | each e => ∃ own, e.Fills (fun _ => false) own ∧ splitRange? 0 (uncommented own) = none

namespace Kind

def Printable : Kind → Prop
  | importPath imported localName => IsPath imported ∧ IsName localName
  | declare name declaredType value =>
    IsName name ∧ (∀ s ∈ declaredType, IsPath s) ∧ ∀ s ∈ value, s.Printable
  | assign name value => IsName name ∧ value.Printable
  | run invoked => invoked.Printable
  | taskBlock target tasks =>
    IsName target ∧ (tasks.map TaskEntry.key).Nodup ∧ ∀ entry ∈ tasks, entry.call.Printable
  | exportValue e | echo e => e.OnLine
  | branch e | switch e | whileLoop e => e.Enclosed
  | case_ e => e.Before fun t => t.isPunct .colon
  | forLoop variable_ iterable => IsName variable_ ∧ iterable.Printable
  | returnValue value => ∀ e ∈ value, e.OnLine
  | function name params => IsName name ∧ params.Nodup ∧ ∀ p ∈ params, IsName p
  | call invoked => IsName invoked.name ∧ invoked.Printable
  | _ => True

/-- A statement of the kind stands on one line. -/
structure OnLine (kind : Kind) : Prop where
  shape : kind.shape = .line
  printable : kind.Printable

end Kind

/-- Where a statement may stand. -/
inductive Place where
  | body
  | branch
  | otherwise
  | arm
deriving DecidableEq

namespace Kind

def place : Kind → Place
  | branch _ => .branch
  | otherwise => .otherwise
  | case_ _ | fallback => .arm
  | _ => .body

/-- Where the children of a statement of the kind stand. -/
def within : Kind → Place
  | switch _ => .arm
  | _ => .body

end Kind

namespace Statement

/-- The statement can be printed and read again in its place. -/
inductive Printable : Place → Statement → Prop
  | line {kind : Kind} {line : Nat} : kind.OnLine → Printable .body (ofLine kind line)
  | block {place : Place} (kind : Kind) {line : Nat} {children : List Statement} :
      kind.place = place → kind.shape = .block → kind ≠ .conditional → kind.Printable →
      (∀ s ∈ children, Printable kind.within s) → Printable place (ofBlock kind line children)
  | conditional {line : Nat} {first : Statement} {further : List Statement}
      {last : Option Statement} : Printable .branch first → (∀ s ∈ further, Printable .branch s) →
      (∀ s ∈ last, Printable .otherwise s) →
      Printable .body (ofBlock .conditional line (first :: (further ++ last.toList)))

end Statement

/-! ## The items of a print -/

namespace PrintItem

/-- All items can be printed and read again. -/
def AllValid (items : List PrintItem) : Prop := ∀ p ∈ items, p.Valid

variable {items more : List PrintItem}

theorem allValid_nil : AllValid [] := List.forall_mem_nil _

theorem AllValid.cons {p : PrintItem} (hp : p.Valid) (h : AllValid items) : AllValid (p :: items) :=
  List.forall_mem_cons.mpr ⟨hp, h⟩

theorem AllValid.append (h : AllValid items) (h' : AllValid more) : AllValid (items ++ more) :=
  List.forall_mem_append.mpr ⟨h, h'⟩

theorem allValid_closed (h : AllValid items) : AllValid (closed items) := by
  have hfurther : ∀ items : List PrintItem, AllValid items → AllValid (closed.further items) := by
    intro items h
    induction items with
    | nil => exact .cons trivial allValid_nil
    | cons p items ih =>
      obtain ⟨hp, hitems⟩ := List.forall_mem_cons.mp h
      exact .cons trivial (.cons trivial (.cons hp (ih hitems)))
  cases items with
  | nil => exact .cons trivial allValid_nil
  | cons p items =>
    obtain ⟨hp, hitems⟩ := List.forall_mem_cons.mp h
    exact .cons hp (hfurther items hitems)

theorem allValid_parenthesized {e : SourceExpr} (h : e.Enclosed) : AllValid (parenthesized e) :=
  .cons trivial (.cons ⟨h.tokens, h.trimmed⟩ (.cons trivial allValid_nil))

theorem allValid_braced {body : List PrintItem} (h : AllValid body) : AllValid (braced body) :=
  .cons trivial (h.append (.cons trivial (.cons trivial allValid_nil)))

end PrintItem

theorem SourceExpr.Before.valid {stop : Token → Bool} {e : SourceExpr} (h : e.Before stop) :
    (PrintItem.expr e).Valid := h.imp fun _ hown => hown.toOwns

theorem Invocation.Printable.valid_items {call : Invocation} (h : call.Printable) :
    AllValid call.items := by
  refine .cons h.name (.cons trivial (allValid_closed ?_))
  intro p hp
  obtain ⟨e, he, rfl⟩ := List.mem_map.mp hp
  exact (h.args e he).valid

theorem Source.Printable.valid_items {s : Source} (h : s.Printable) : AllValid s.items := by
  cases s with
  | expr e =>
    obtain ⟨own, hown, -⟩ := h
    exact .cons ⟨own, hown.toOwns⟩ allValid_nil
  | run call => exact .cons trivial (.cons trivial (Invocation.Printable.valid_items h))
  | invoke call e =>
    obtain ⟨own, c, hown, -⟩ := h
    exact .cons ⟨own, hown⟩ allValid_nil

theorem Iterable.Printable.valid_items {i : Iterable} (h : i.Printable) : AllValid i.items := by
  cases i with
  | range start stop inclusive =>
    obtain ⟨⟨own, hown, -⟩, hstop⟩ := h
    have hrest : AllValid [space, .expr stop] := .cons trivial (.cons hstop.valid allValid_nil)
    exact .cons ⟨own, hown.toOwns⟩ (.cons trivial (.cons trivial hrest))
  | each e =>
    obtain ⟨own, hown, -⟩ := h
    exact .cons ⟨own, hown.toOwns⟩ allValid_nil

theorem TaskEntry.valid_items {entries : List TaskEntry}
    (h : ∀ entry ∈ entries, entry.call.Printable) : AllValid (entries.flatMap TaskEntry.items) := by
  intro p hp
  obtain ⟨entry, hentry, hp⟩ := List.mem_flatMap.mp hp
  have hall : AllValid entry.items :=
    .cons trivial (.cons trivial (.cons trivial (.cons trivial (h entry hentry).valid_items)))
  exact hall p hp

theorem Kind.Printable.valid_items {kind : Kind} (h : kind.Printable) {body : List PrintItem}
    (hb : AllValid body) : AllValid (kind.items body) := by
  have hblock : AllValid (space :: braced body) := .cons trivial (allValid_braced hb)
  have hvalue {s : Source} (hs : s.Printable) :
      AllValid (space :: mark .assign :: space :: s.items) :=
    .cons trivial (.cons trivial (.cons trivial hs.valid_items))
  have hlone (k : Keyword) : AllValid [keyword k] := .cons trivial allValid_nil
  have hexpr (k : Keyword) {e : SourceExpr} (he : e.OnLine) : AllValid [keyword k, space, expr e] :=
    .cons trivial (.cons trivial (.cons he.valid allValid_nil))
  have hparens (k : Keyword) {e : SourceExpr} (he : e.Enclosed) :
      AllValid (keyword k :: space :: (parenthesized e ++ space :: braced body)) :=
    .cons trivial (.cons trivial ((allValid_parenthesized he).append hblock))
  cases kind with
  | importPath path localName =>
    have hlocal : AllValid [space, keyword .as_, space, .name localName] :=
      .cons trivial (.cons trivial (.cons trivial (.cons h.2 allValid_nil)))
    exact .cons trivial (.cons trivial (.cons h.1 hlocal))
  | declare target declaredType value =>
    refine .cons trivial (.cons trivial (.cons h.1 (.append ?_ ?_)))
    · cases declaredType with
      | none => exact allValid_nil
      | some s => exact .cons trivial (.cons trivial (.cons (h.2.1 s rfl) allValid_nil))
    · cases value with
      | none => exact allValid_nil
      | some value => exact hvalue (h.2.2 value rfl)
  | assign target value => exact .cons h.1 (hvalue h.2)
  | run call => exact .cons trivial (.cons trivial (Invocation.Printable.valid_items h))
  | taskBlock target tasks =>
    have htasks := allValid_braced (TaskEntry.valid_items h.2.2)
    exact .cons trivial (.cons trivial (.cons h.1 (.cons trivial htasks)))
  | exportValue e => exact hexpr _ h
  | echo e => exact hexpr _ h
  | conditional => exact hb
  | branch e => exact hparens _ h
  | switch e => exact hparens _ h
  | whileLoop e => exact hparens _ h
  | otherwise => exact allValid_braced hb
  | case_ e => exact .cons trivial (.cons trivial (.cons h.valid (.cons trivial hb)))
  | fallback => exact .cons trivial (.cons trivial hb)
  | forLoop variable_ iterable =>
    have hin := AllValid.cons (p := keyword .in_) trivial
      (.cons (p := space) trivial (h.2.valid_items.append hblock))
    exact .cons trivial (.cons trivial (.cons h.1 (.cons trivial hin)))
  | breakLoop => exact hlone _
  | breakAll => exact hlone _
  | continueLoop => exact hlone _
  | returnValue value =>
    cases value with
    | none => exact hlone _
    | some e => exact hexpr _ (h e rfl)
  | function defined params =>
    have hparams : AllValid (params.map PrintItem.name) := by
      intro p hp
      obtain ⟨param, hparam, rfl⟩ := List.mem_map.mp hp
      exact h.2.2 param hparam
    refine .cons trivial (.cons trivial (.cons h.1 (.cons trivial ?_)))
    exact (allValid_closed hparams).append hblock
  | call call => exact Invocation.Printable.valid_items h.2

namespace Statement

theorem valid_itemsOf {before : List PrintItem} (hbefore : AllValid before) {ss : List Statement}
    (h : ∀ s ∈ ss, AllValid s.items) : AllValid (itemsOf before ss) := by
  induction ss with
  | nil => rw [itemsOf_nil]; exact allValid_nil
  | cons s ss ih =>
    obtain ⟨hs, hss⟩ := List.forall_mem_cons.mp h
    rw [itemsOf_cons]
    exact (hbefore.append hs).append (ih hss)

theorem Printable.valid_items {place : Place} {s : Statement} (h : Printable place s) :
    AllValid s.items := by
  have hfeed : AllValid [feed] := .cons trivial allValid_nil
  induction h with
  | @line kind line hkind =>
    have hne : kind ≠ .conditional := by
      rintro rfl
      cases hkind.shape
    rw [ofLine, items_of_ne hne]
    exact hkind.printable.valid_items (valid_itemsOf hfeed (List.forall_mem_nil _))
  | block kind _ _ hne hkind _ ih =>
    rw [ofBlock, items_of_ne hne]
    exact hkind.valid_items (valid_itemsOf hfeed ih)
  | @conditional line first further last _ _ _ hfirst hfurther hlast =>
    rw [ofBlock, items_conditional]
    have helse : AllValid [space, keyword .else_, space] :=
      .cons trivial (.cons trivial (.cons trivial allValid_nil))
    refine hfirst.append (valid_itemsOf helse (List.forall_mem_append.mpr ⟨hfurther, ?_⟩))
    exact fun s hs => hlast s (Option.mem_toList.mp hs)

end Statement

end PipelineScript
