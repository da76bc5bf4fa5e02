import PipelineScript.Script
import PipelineScript.Table

/-! Scripts under names of their own. A name is given once, and its text is compiled then. -/

namespace PipelineScript

abbrev Registry := Table Script

inductive RegistryFault where
  | duplicate (name : String)
  | notFound (name : String)
  | invalid (name : String) (source : Diagnostic)
deriving DecidableEq, Repr

namespace RegistryFault

def name : RegistryFault → String
  | duplicate name | notFound name | invalid name _ => name

def text : RegistryFault → String
  | duplicate name => s!"script '{name}' is already registered"
  | notFound name => s!"script '{name}' is not registered"
  | invalid name source => s!"script '{name}' failed to compile: {source.text}"

end RegistryFault

namespace Registry

/-- A name that is taken keeps its script, whatever the new text is. -/
def register (r : Registry) (name source : String) : Except RegistryFault (Script × Registry) :=
  if Table.has r name then .error (.duplicate name)
  else
    match Script.compile source with
    | .ok script => .ok (script, Table.insert r name script)
    | .error d => .error (.invalid name d)

def get (r : Registry) (name : String) : Except RegistryFault Script :=
  match Table.get? r name with
  | some script => .ok script
  | none => .error (.notFound name)

def remove (r : Registry) (name : String) : Except RegistryFault (Script × Registry) := do
  return (← r.get name, Table.erase r name)

end Registry

end PipelineScript
