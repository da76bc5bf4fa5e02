/-! # Diagnostics

What a script that does not compile is answered with. -/

namespace PipelineScript

/-- Which check found the fault. -/
inductive Category where
  /-- Brackets that do not pair up. -/
  | bracket
  /-- A string literal left open, or a bad escape in one. -/
  | string
  /-- A character or literal that is no token. -/
  | token
  /-- Tokens that are no statement. -/
  | statement
  /-- A statement tree of the wrong shape. -/
  | structure_
  /-- A jump with nothing around it to jump out of. -/
  | controlFlow
deriving DecidableEq, Repr

def Category.text : Category → String
  | bracket => "bracket" | string => "string" | token => "token" | statement => "statement"
  | structure_ => "structure" | controlFlow => "control-flow"

structure Diagnostic where
  line : Nat
  category : Category
  message : String
  /-- The source around the fault. -/
  context : String
  suggestion : String
deriving DecidableEq, Repr

def Diagnostic.text (d : Diagnostic) : String :=
  s!"syntax error [{d.category.text}] at line {d.line}: {d.message}\n" ++
    s!"  near: {d.context}\n  help: {d.suggestion}"

end PipelineScript
