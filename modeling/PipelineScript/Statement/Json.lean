import PipelineScript.Json
import PipelineScript.Statement

/-! # Statements as JSON

A statement is an object: the name of its kind under `t`, the fields of that kind, its shape under
`structure`, its line, and its children unless there are none. What is written reads back.

Reading takes a little more. A record may also be a list of its fields in order, a tag may be the
number of its name, a field that may be absent may be `null`, and members that no field asks for
are passed over. -/

namespace PipelineScript

/-! ## Writing -/

def SourceExpr.toJson (e : SourceExpr) : Json := .obj [("source", .str e.source)]

def Invocation.toJson (c : Invocation) : Json :=
  .obj [("name", .str c.name), ("args", .arr (c.args.map SourceExpr.toJson))]

def Source.toJson : Source → Json
  | expr e => .obj [("t", .str "Expr"), ("expr", e.toJson)]
  | run call => .obj [("t", .str "Run"), ("call", call.toJson)]
  | invoke call source =>
    .obj [("t", .str "Invoke"), ("call", call.toJson), ("source", source.toJson)]

def Iterable.toJson : Iterable → Json
  | range start stop inclusive =>
    .obj [("t", .str "Range"), ("start", start.toJson), ("end", stop.toJson),
      ("inclusive", .bool inclusive)]
  | each e => .obj [("t", .str "Each"), ("expr", e.toJson)]

def TaskEntry.toJson (t : TaskEntry) : Json :=
  .obj [("key", .str t.key), ("call", t.call.toJson), ("line", .int t.line)]

def jsonOrNull {α : Type} (toJson : α → Json) : Option α → Json
  | some a => toJson a
  | none => .null

/-- The fields of a kind, in order. -/
def Kind.fields : Kind → List (String × Json)
  | importPath path localName => [("path", .str path), ("alias", .str localName)]
  | declare name declaredType value =>
    [("name", .str name), ("declared_type", jsonOrNull .str declaredType),
      ("value", jsonOrNull Source.toJson value)]
  | assign name value => [("name", .str name), ("value", value.toJson)]
  | run c => [("call", c.toJson)]
  | taskBlock target tasks =>
    [("target", .str target), ("tasks", .arr (tasks.map TaskEntry.toJson))]
  | exportValue value => [("value", value.toJson)]
  | echo value => [("value", value.toJson)]
  | conditional => []
  | branch condition => [("condition", condition.toJson)]
  | otherwise => []
  | switch subject => [("subject", subject.toJson)]
  | case_ value => [("value", value.toJson)]
  | fallback => []
  | forLoop variable_ iterable => [("var", .str variable_), ("iterable", iterable.toJson)]
  | whileLoop condition => [("condition", condition.toJson)]
  | breakLoop => []
  | breakAll => []
  | continueLoop => []
  | returnValue value => [("value", jsonOrNull SourceExpr.toJson value)]
  | function name params => [("name", .str name), ("params", .arr (params.map .str))]
  | call c => [("call", c.toJson)]

def Shape.name : Shape → String
  | line => "Line"
  | block => "Block"

mutual

def Statement.toJson : Statement → Json
  | ⟨kind, shape, line, children⟩ =>
    .obj (("t", .str kind.name) :: kind.fields ++
      [("structure", .str shape.name), ("line", .int line)] ++
      match Statement.listJson children with
      | [] => []
      | js => [("children", .arr js)])

def Statement.listJson : List Statement → List Json
  | [] => []
  | s :: rest => s.toJson :: Statement.listJson rest

end

/-! ## Reading -/

namespace Json

def text? : Json → Option String
  | str s => some s
  | _ => none

def bool? : Json → Option Bool
  | bool b => some b
  | _ => none

def nat? : Json → Option Nat
  | int i => if 0 ≤ i then some i.toNat else none
  | _ => none

def list? {α : Type} (item? : Json → Option α) : Json → Option (List α)
  | arr items => items.mapM item?
  | _ => none

/-- A field that may be absent or `null`. -/
def optional? {α : Type} (value? : Json → Option α) : Option Json → Option (Option α)
  | none => some none
  | some null => some none
  | some j => (value? j).map some

/-- The fields of a record: members by name, or a list of exactly as many items. -/
def record? (names : List String) : Json → Option (List (Option Json))
  | obj members => some (names.map (Table.get? members))
  | arr items => if items.length = names.length then some (items.map some) else none
  | _ => none

/-- The name that a tag stands for: one of `names`, or the number of one. -/
def tag? (names : List String) : Json → Option String
  | str s => names.find? (· = s)
  | int i => if 0 ≤ i then names[i.toNat]? else none
  | _ => none

/-- A tagged record: the tag is the member `t`, or the first item of a list. -/
def tagged? (names : List String) : Json → Option (String × Json)
  | obj members => do
    let name ← tag? names (← Table.get? members "t")
    some (name, obj members)
  | arr (tag :: rest) => (tag? names tag).map fun name => (name, arr rest)
  | _ => none

end Json

def SourceExpr.ofJson? (j : Json) : Option SourceExpr := do
  match ← j.record? ["source"] with
  | [some source] => some ⟨← source.text?⟩
  | _ => none

def Invocation.ofJson? (j : Json) : Option Invocation := do
  match ← j.record? ["name", "args"] with
  | [some name, some args] => some ⟨← name.text?, ← args.list? SourceExpr.ofJson?⟩
  | _ => none

def Source.ofJson? (j : Json) : Option Source := do
  match ← j.tagged? ["Expr", "Run", "Invoke"] with
  | ("Expr", j) =>
    match ← j.record? ["expr"] with
    | [some e] => some (.expr (← SourceExpr.ofJson? e))
    | _ => none
  | ("Run", j) =>
    match ← j.record? ["call"] with
    | [some call] => some (.run (← Invocation.ofJson? call))
    | _ => none
  | (_, j) =>
    match ← j.record? ["call", "source"] with
    | [some call, some source] =>
      some (.invoke (← Invocation.ofJson? call) (← SourceExpr.ofJson? source))
    | _ => none

def Iterable.ofJson? (j : Json) : Option Iterable := do
  match ← j.tagged? ["Range", "Each"] with
  | ("Range", j) =>
    match ← j.record? ["start", "end", "inclusive"] with
    | [some start, some stop, some inclusive] =>
      some (.range (← SourceExpr.ofJson? start) (← SourceExpr.ofJson? stop) (← inclusive.bool?))
    | _ => none
  | (_, j) =>
    match ← j.record? ["expr"] with
    | [some e] => some (.each (← SourceExpr.ofJson? e))
    | _ => none

def TaskEntry.ofJson? (j : Json) : Option TaskEntry := do
  match ← j.record? ["key", "call", "line"] with
  | [some key, some call, some line] =>
    some ⟨← key.text?, ← Invocation.ofJson? call, ← line.nat?⟩
  | _ => none

def Kind.names : List String :=
  ["Import", "Declare", "Assign", "Run", "Task", "Export", "Echo", "If", "Branch", "Else", "Switch",
    "Case", "Default", "For", "While", "Break", "BreakAll", "Continue", "Return", "FunctionDef",
    "Call"]

/-- The kind that the members of a statement describe. -/
def Kind.ofMembers? (members : List (String × Json)) : Option Kind := do
  let field := Table.get? members
  let expr := fun key => field key >>= SourceExpr.ofJson?
  let call := fun key => field key >>= Invocation.ofJson?
  let text := fun key => field key >>= Json.text?
  match ← Json.tag? Kind.names (← field "t") with
  | "Import" => some (.importPath (← text "path") (← text "alias"))
  | "Declare" =>
    some (.declare (← text "name") (← Json.optional? Json.text? (field "declared_type"))
      (← Json.optional? Source.ofJson? (field "value")))
  | "Assign" => some (.assign (← text "name") (← Source.ofJson? (← field "value")))
  | "Run" => some (.run (← call "call"))
  | "Task" => some (.taskBlock (← text "target") (← (← field "tasks").list? TaskEntry.ofJson?))
  | "Export" => some (.exportValue (← expr "value"))
  | "Echo" => some (.echo (← expr "value"))
  | "If" => some .conditional
  | "Branch" => some (.branch (← expr "condition"))
  | "Else" => some .otherwise
  | "Switch" => some (.switch (← expr "subject"))
  | "Case" => some (.case_ (← expr "value"))
  | "Default" => some .fallback
  | "For" => some (.forLoop (← text "var") (← Iterable.ofJson? (← field "iterable")))
  | "While" => some (.whileLoop (← expr "condition"))
  | "Break" => some .breakLoop
  | "BreakAll" => some .breakAll
  | "Continue" => some .continueLoop
  | "Return" => some (.returnValue (← Json.optional? SourceExpr.ofJson? (field "value")))
  | "FunctionDef" => some (.function (← text "name") (← (← field "params").list? Json.text?))
  | _ => some (.call (← call "call"))

/-- A shape by its name, or an object whose one member has that name and is `null`. -/
def Shape.ofJson? : Json → Option Shape
  | .str "Line" | .obj [("Line", .null)] => some .line
  | .str "Block" | .obj [("Block", .null)] => some .block
  | _ => none

mutual

def Statement.ofJson? : Json → Option Statement
  | .obj members => do
    let kind ← Kind.ofMembers? members
    let shape ← Shape.ofJson? (← Table.get? members "structure")
    let line ← (← Table.get? members "line").nat?
    let children ← Statement.ofChildren? members
    some ⟨kind, shape, line, children⟩
  | _ => none

/-- The statements of the member `children`; none if there is no such member. -/
def Statement.ofChildren? : List (String × Json) → Option (List Statement)
  | [] => some []
  | (key, j) :: rest =>
    if key = "children" then Statement.ofList? j else Statement.ofChildren? rest

def Statement.ofList? : Json → Option (List Statement)
  | .arr items => Statement.ofItems? items
  | _ => none

def Statement.ofItems? : List Json → Option (List Statement)
  | [] => some []
  | j :: rest => do
    let s ← Statement.ofJson? j
    let ss ← Statement.ofItems? rest
    some (s :: ss)

end

/-- A list of statements as JSON. -/
def Statement.listToJson (nodes : List Statement) : Json := .arr (Statement.listJson nodes)

end PipelineScript
