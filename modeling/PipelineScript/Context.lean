import PipelineScript.Statement
import PipelineScript.Value

/-! # The context of a run

What the names of a script mean at some point of a run. Scopes are nested: a block, an iteration
and the body of a function each open one, and names are looked up from the innermost one outward.
The global scope is always there, which the type says. -/

namespace PipelineScript

inductive ScopeKind where
  | global
  | block
  | function
deriving DecidableEq, Repr

structure Binding where
  value : Value
  declaredType : Option String

structure Scope where
  kind : ScopeKind
  bindings : Table Binding
  /-- The statements that define functions, by the name of the function. -/
  functions : Table Statement

namespace Scope

def empty (kind : ScopeKind) : Scope := ⟨kind, [], []⟩

def bind (s : Scope) (name : String) (b : Binding) : Scope :=
  { s with bindings := Table.insert s.bindings name b }

end Scope

/-- Values that a host hands to a run. -/
abbrev HostValues := Table Value

structure Context where
  /-- The scopes inside the global one, the innermost first. -/
  inner : List Scope
  global : Scope
  /-- The path that each imported name stands for. -/
  imports : Table String
  /-- Loops entered in the current function. -/
  loopDepth : Nat
  callDepth : Nat

namespace Context

/-! ## Names of the system -/

def poolName : String := "$threadFactoryName"

/-- The export of a run is kept under this name until the run ends. -/
def exportName : String := "$export"

/-- Three values of the host get names of the system; all others are plain variables. -/
def seedName : String → String
  | "threadFactoryName" => poolName
  | "preValue" => "$preValue"
  | "params" => "$params"
  | name => name

def ofHost (host : HostValues) : Context :=
  let global := host.foldl (fun s (name, v) => s.bind (seedName name) ⟨v, none⟩)
    (Scope.empty .global)
  ⟨[], global, [], 0, 0⟩

/-! ## Scopes -/

/-- All scopes, the innermost first. -/
def scopes (c : Context) : List Scope := c.inner ++ [c.global]

/-- The number of scopes, of which the current one is the last. -/
def depth (c : Context) : Nat := c.inner.length + 1

def push (c : Context) (kind : ScopeKind) : Context :=
  { c with inner := Scope.empty kind :: c.inner }

/-- Leaves scope `index` and all scopes inside of it. The global scope is number 0 and stays. -/
def popTo (c : Context) (index : Nat) : Context :=
  if index = 0 then c else { c with inner := c.inner.drop (c.depth - index) }

/-- Scope number `index`, counted from the global one. -/
def scope? (c : Context) (index : Nat) : Option Scope := c.scopes.reverse[index]?

/-- The number of the scope around scope `index`; there is none around the global one. -/
def parent? (c : Context) (index : Nat) : Option Nat :=
  if 0 < index ∧ index < c.depth then some (index - 1) else none

/-- A change of the current scope. -/
def modifyCurrent (c : Context) (f : Scope → Scope) : Context :=
  match c.inner with
  | [] => { c with global := f c.global }
  | s :: rest => { c with inner := f s :: rest }

/-! ## Variables -/

def binding? (c : Context) (name : String) : Option Binding :=
  c.scopes.findSome? fun s => Table.get? s.bindings name

def lookUp (c : Context) (name : String) : Option Value := (c.binding? name).map Binding.value

/-- Binds a name in the current scope. -/
def declare (c : Context) (name : String) (v : Value) (declaredType : Option String) : Context :=
  c.modifyCurrent fun s => s.bind name ⟨v, declaredType⟩

/-- Gives the innermost of the scopes that binds the name a new value for it. -/
def assignIn (name : String) (v : Value) : List Scope → Option (List Scope)
  | [] => none
  | s :: rest =>
    match Table.get? s.bindings name with
    | some b => some (s.bind name { b with value := v } :: rest)
    | none => (assignIn name v rest).map (s :: ·)

/-- Changes the innermost binding of a name; a new name is bound in the current scope. -/
def assign (c : Context) (name : String) (v : Value) : Context :=
  match assignIn name v c.inner with
  | some inner => { c with inner }
  | none =>
    match Table.get? c.global.bindings name with
    | some b => { c with global := c.global.bind name { b with value := v } }
    | none => c.declare name v none

/-- All names in sight with their values. -/
def visible (c : Context) : Table Value :=
  c.scopes.foldr (fun s t => s.bindings.foldl (fun t (name, b) => Table.insert t name b.value) t) []

/-! ## Export, imports, functions -/

def setExport (c : Context) (v : Value) : Context :=
  { c with global := c.global.bind exportName ⟨v, none⟩ }

def takeExport (c : Context) : Option Value × Context :=
  ((Table.get? c.global.bindings exportName).map Binding.value,
    { c with global := { c.global with bindings := Table.erase c.global.bindings exportName } })

def addImport (c : Context) (localName path : String) : Context :=
  { c with imports := Table.insert c.imports localName path }

/-- The path of an imported name; any other name stands for itself. -/
def resolve (c : Context) (name : String) : String := (Table.get? c.imports name).getD name

/-- Binds the name of a function in the current scope to the statement that defines it. -/
def bindFunction (c : Context) (name : String) (definition : Statement) : Context :=
  c.modifyCurrent fun s => { s with functions := Table.insert s.functions name definition }

def function? (c : Context) (name : String) : Option Statement :=
  c.scopes.findSome? fun s => Table.get? s.functions name

/-- The thread pool that the host asks for. -/
def pool? (c : Context) : Option String := c.lookUp poolName >>= Value.asText?

/-! ## Frames -/

def enterLoop (c : Context) : Context := { c with loopDepth := c.loopDepth + 1 }

def exitLoop (c : Context) : Context := { c with loopDepth := c.loopDepth - 1 }

/-- A function counts its loops from zero. -/
def enterFunction (c : Context) : Context :=
  { c with callDepth := c.callDepth + 1, loopDepth := 0 }

def exitFunction (c : Context) (loopDepth : Nat) : Context :=
  { c with callDepth := c.callDepth - 1, loopDepth }

end Context

end PipelineScript
