import PipelineScript.Statement
import PipelineScript.Token

/-! # Printing a tree

A tree is printed with one statement on each line: expressions as they were written, conditions and
subjects on lines of their own between parentheses, the keys of a task block in quotes. It is set
from items first, which are then written one behind the other. -/

namespace PipelineScript

/-- What a print is set from. -/
inductive PrintItem where
  | keyword (k : Keyword)
  | name (s : String)
  /-- A name, perhaps with dots. -/
  | path (s : String)
  | mark (p : Punct)
  /-- The key of a task, in quotes. -/
  | key (s : String)
  /-- An expression as it was written. -/
  | expr (e : SourceExpr)
  /-- An expression on lines of its own. -/
  | lines (e : SourceExpr)
  | space
  | feed

namespace PrintItem

/-- A character between quotes. -/
def escape : Char → List Char
  | '"' => ['\\', '"']
  | '\\' => ['\\', '\\']
  | '\n' => ['\\', 'n']
  | c => [c]

def chars : PrintItem → List Char
  | keyword k => k.text.toList
  | name s | path s => s.toList
  | mark p => p.chars
  | key s => '"' :: (s.toList.flatMap escape ++ ['"'])
  | expr e => e.source.toList
  | lines e => '\n' :: (e.source.toList ++ ['\n'])
  | space => [' ']
  | feed => ['\n']

/-- Items with commas between them, through the closing parenthesis. -/
def closed : List PrintItem → List PrintItem
  | [] => [mark .closeParen]
  | p :: items => p :: further items
where
  further : List PrintItem → List PrintItem
    | [] => [mark .closeParen]
    | p :: items => mark .comma :: space :: p :: further items

def parenthesized (e : SourceExpr) : List PrintItem := [mark .openParen, lines e, mark .closeParen]

/-- Braces on the first line and below the last one. -/
def braced (body : List PrintItem) : List PrintItem :=
  mark .openBrace :: (body ++ [feed, mark .closeBrace])

end PrintItem

open PrintItem

def Invocation.items (call : Invocation) : List PrintItem :=
  .path call.name :: mark .openParen :: closed (call.args.map expr)

def Source.items : Source → List PrintItem
  | .expr e | .invoke _ e => [.expr e]
  | .run call => keyword .run :: space :: call.items

def Iterable.items : Iterable → List PrintItem
  | .range start stop inclusive =>
    [expr start, space, mark (if inclusive then .rangeThrough else .rangeBelow), space, expr stop]
  | .each e => [expr e]

def TaskEntry.items (entry : TaskEntry) : List PrintItem :=
  feed :: PrintItem.key entry.key :: mark .colon :: space :: entry.call.items

namespace Kind

def typeItems : Option String → List PrintItem
  | none => []
  | some declaredType => [mark .colon, space, path declaredType]

def valueItems : Option Source → List PrintItem
  | none => []
  | some value => space :: mark .assign :: space :: value.items

/-- A statement of the kind. Each line of its body starts with a line feed. -/
def items (body : List PrintItem) : Kind → List PrintItem
  | importPath imported localName =>
    [keyword .import_, space, path imported, space, keyword .as_, space, .name localName]
  | declare target declaredType value =>
    keyword .declare :: space :: .name target :: (typeItems declaredType ++ valueItems value)
  | assign target value => .name target :: space :: mark .assign :: space :: value.items
  | run invoked => keyword .run :: space :: invoked.items
  | taskBlock target tasks =>
    keyword .task :: space :: .name target :: space :: braced (tasks.flatMap TaskEntry.items)
  | exportValue e => [keyword .export_, space, expr e]
  | echo e => [keyword .echo, space, expr e]
  | conditional => body
  | branch condition => keyword .if_ :: space :: (parenthesized condition ++ space :: braced body)
  | otherwise => braced body
  | switch subject => keyword .switch :: space :: (parenthesized subject ++ space :: braced body)
  | case_ value => keyword .case_ :: space :: expr value :: mark .colon :: body
  | fallback => keyword .default_ :: mark .colon :: body
  | forLoop variable_ iterable =>
    keyword .for_ :: space :: .name variable_ :: space :: keyword .in_ :: space ::
      (iterable.items ++ space :: braced body)
  | whileLoop condition =>
    keyword .while_ :: space :: (parenthesized condition ++ space :: braced body)
  | breakLoop => [keyword .break_]
  | breakAll => [keyword .breakAll]
  | continueLoop => [keyword .continue_]
  | returnValue none => [keyword .return_]
  | returnValue (some e) => [keyword .return_, space, expr e]
  | function defined params =>
    keyword .function :: space :: .name defined :: mark .openParen ::
      (closed (params.map .name) ++ space :: braced body)
  | call invoked => invoked.items

end Kind

namespace Statement

mutual

/-- A statement without the end of its line. -/
def items : Statement → List PrintItem
  | ⟨.conditional, _, _, first :: more⟩ =>
    items first ++ itemsOf [space, keyword .else_, space] more
  | ⟨kind, _, _, children⟩ => kind.items (itemsOf [feed] children)

/-- Statements with something before each. -/
def itemsOf (before : List PrintItem) : List Statement → List PrintItem
  | [] => []
  | s :: ss => before ++ items s ++ itemsOf before ss

end

/-- The lines of a script. -/
def script : List Statement → List PrintItem
  | [] => []
  | s :: ss => items s ++ itemsOf [feed] ss ++ [feed]

/-- A script with the statements. -/
def print (ss : List Statement) : String := String.ofList ((script ss).flatMap chars)

theorem items_conditional (shape : Shape) (line : Nat) (first : Statement)
    (more : List Statement) : items ⟨.conditional, shape, line, first :: more⟩ =
      items first ++ itemsOf [space, keyword .else_, space] more := by rw [items]

theorem items_of_ne {kind : Kind} (h : kind ≠ .conditional) (shape : Shape) (line : Nat)
    (children : List Statement) :
    items ⟨kind, shape, line, children⟩ = kind.items (itemsOf [feed] children) := by
  rw [items]
  exact fun _ _ hkind => absurd hkind h

@[simp] theorem itemsOf_nil (before : List PrintItem) : itemsOf before [] = [] := by rw [itemsOf]

@[simp] theorem itemsOf_cons (before : List PrintItem) (s : Statement) (ss : List Statement) :
    itemsOf before (s :: ss) = before ++ items s ++ itemsOf before ss := by rw [itemsOf]

end Statement

end PipelineScript
