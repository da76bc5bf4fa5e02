import PipelineScript.Proofs.Statement.Views
import PipelineScript.Run

/-! # Views of a context

A context keeps the statements that define functions, and nothing else of a script. Looked at
through a view, every operation on a context does the same to the context that the view shows. -/

namespace PipelineScript

namespace Table

variable {α β : Type}

theorem get?_map (f : α → β) (t : Table α) (key : String) :
    get? (t.map fun (k, x) => (k, f x)) key = (get? t key).map f := by
  induction t with
  | nil => rfl
  | cons entry rest ih =>
    rw [List.map_cons, get?, get?]
    split
    · rfl
    · exact ih

theorem insert_map (f : α → β) (t : Table α) (key : String) (value : α) :
    insert (t.map fun (k, x) => (k, f x)) key (f value) =
      (insert t key value).map fun (k, x) => (k, f x) := by
  induction t with
  | nil => rfl
  | cons entry rest ih =>
    rw [List.map_cons, insert, insert]
    split
    · rfl
    · split
      · rfl
      · rw [ih, List.map_cons]

end Table

namespace View

variable (v : View)

def scope (s : Scope) : Scope :=
  { s with functions := s.functions.map fun (name, f) => (name, v.statement f) }

def context (c : Context) : Context :=
  { c with inner := c.inner.map v.scope, global := v.scope c.global }

variable (c : Context)

@[simp] theorem scope_bindings (s : Scope) : (v.scope s).bindings = s.bindings := rfl

@[simp] theorem scope_bind (s : Scope) (name : String) (b : Binding) :
    v.scope (s.bind name b) = (v.scope s).bind name b := rfl

@[simp] theorem imports_context : (v.context c).imports = c.imports := rfl

@[simp] theorem loopDepth_context : (v.context c).loopDepth = c.loopDepth := rfl

@[simp] theorem depth_context : (v.context c).depth = c.depth := by
  simp [context, Context.depth]

theorem scopes_context : (v.context c).scopes = c.scopes.map v.scope := by
  simp [context, Context.scopes]

/-! ## What is read -/

@[simp] theorem binding?_context (name : String) :
    (v.context c).binding? name = c.binding? name := by
  rw [Context.binding?, Context.binding?, scopes_context, List.findSome?_map]
  rfl

@[simp] theorem lookUp_context (name : String) : (v.context c).lookUp name = c.lookUp name := by
  rw [Context.lookUp, Context.lookUp, binding?_context]

@[simp] theorem lookUp_context_eq : (v.context c).lookUp = c.lookUp := funext (v.lookUp_context c)

@[simp] theorem pool?_context : (v.context c).pool? = c.pool? := by
  rw [Context.pool?, Context.pool?, lookUp_context]

@[simp] theorem resolve_context (name : String) : (v.context c).resolve name = c.resolve name := rfl

/-- The definition that a name stands for is seen through the view. -/
theorem function?_context (name : String) :
    (v.context c).function? name = (c.function? name).map v.statement := by
  rw [Context.function?, Context.function?, scopes_context]
  induction c.scopes with
  | nil => rfl
  | cons s rest ih =>
    have hs : Table.get? (v.scope s).functions name =
        (Table.get? s.functions name).map v.statement := Table.get?_map _ _ _
    rw [List.map_cons, List.findSome?_cons, List.findSome?_cons, hs, ih]
    cases Table.get? s.functions name <;> rfl

/-! ## What is written -/

theorem modifyCurrent_context {f g : Scope → Scope} (h : ∀ s, v.scope (f s) = g (v.scope s)) :
    v.context (c.modifyCurrent f) = (v.context c).modifyCurrent g := by
  obtain ⟨inner, global, imports, loopDepth, callDepth⟩ := c
  cases inner <;> simp [context, Context.modifyCurrent, h]

@[simp] theorem declare_context (name : String) (x : Value) (declaredType : Option String) :
    v.context (c.declare name x declaredType) = (v.context c).declare name x declaredType :=
  v.modifyCurrent_context c fun _ => rfl

theorem assignIn_map (name : String) (x : Value) (inner : List Scope) :
    Context.assignIn name x (inner.map v.scope) =
      (Context.assignIn name x inner).map (List.map v.scope) := by
  induction inner with
  | nil => rfl
  | cons s rest ih =>
    rw [List.map_cons, Context.assignIn, Context.assignIn, scope_bindings]
    split
    · rfl
    · rw [ih, Option.map_map, Option.map_map]
      rfl

@[simp] theorem assign_context (name : String) (x : Value) :
    v.context (c.assign name x) = (v.context c).assign name x := by
  have hinner : (v.context c).inner = c.inner.map v.scope := rfl
  have hglobal : (v.context c).global.bindings = c.global.bindings := rfl
  unfold Context.assign
  rw [hinner, assignIn_map, hglobal]
  cases Context.assignIn name x c.inner with
  | some inner => rfl
  | none =>
    cases Table.get? c.global.bindings name with
    | some b => rfl
    | none => exact v.declare_context c name x none

@[simp] theorem addImport_context (localName path : String) :
    v.context (c.addImport localName path) = (v.context c).addImport localName path := rfl

@[simp] theorem setExport_context (x : Value) :
    v.context (c.setExport x) = (v.context c).setExport x := rfl

theorem takeExport_context :
    (v.context c).takeExport = (c.takeExport.1, v.context c.takeExport.2) := rfl

@[simp] theorem push_context (kind : ScopeKind) :
    v.context (c.push kind) = (v.context c).push kind := rfl

@[simp] theorem popTo_context (index : Nat) :
    v.context (c.popTo index) = (v.context c).popTo index := by
  unfold Context.popTo
  rw [depth_context]
  split
  · rfl
  · simp [context, List.map_drop]

@[simp] theorem kind_function (name : String) (params : List String) :
    v.kind (.function name params) = .function name params := rfl

@[simp] theorem statement_kind (s : Statement) : (v.statement s).kind = v.kind s.kind := by
  cases s; rw [statement]

@[simp] theorem statement_children (s : Statement) :
    (v.statement s).children = v.statements s.children := by
  cases s; rw [statement]

@[simp] theorem statement_line (s : Statement) : (v.statement s).line = v.line s.line := by
  cases s; rw [statement]

theorem bindDefinition_context (s : Statement) :
    v.context (Run.bindDefinition c s) = Run.bindDefinition (v.context c) (v.statement s) := by
  obtain ⟨kind, shape, line, children⟩ := s
  unfold Run.bindDefinition
  rw [statement_kind]
  cases kind with
  | function name params =>
    exact v.modifyCurrent_context c fun s => by
      simp only [scope, ← Table.insert_map]
  | _ => rfl

theorem hoist_context (nodes : List Statement) :
    v.context (nodes.foldl Run.bindDefinition c) =
      (v.statements nodes).foldl Run.bindDefinition (v.context c) := by
  induction nodes generalizing c with
  | nil => rw [statements_nil]; rfl
  | cons s rest ih =>
    rw [statements_cons, List.foldl_cons, List.foldl_cons, ih, bindDefinition_context]

@[simp] theorem bindParams_context (params : List String) (args : List Value) :
    v.context (Run.bindParams params args c) = Run.bindParams params args (v.context c) := by
  induction params generalizing args c with
  | nil => rfl
  | cons param params ih =>
    cases args with
    | nil => rfl
    | cons arg args => rw [Run.bindParams, Run.bindParams, ih, declare_context]

/-- A host defines no functions. -/
theorem context_ofHost (host : HostValues) : v.context (.ofHost host) = .ofHost host := by
  have hglobal : v.scope (Context.ofHost host).global = (Context.ofHost host).global := by
    refine List.foldlRecOn (motive := fun s => v.scope s = s) host _ rfl fun s hs entry _ => ?_
    rw [scope_bind, hs]
  show ({ Context.ofHost host with global := v.scope (Context.ofHost host).global } : Context) = _
  rw [hglobal]

end View

end PipelineScript
