import PipelineScript.CommandLine.Arguments
import PipelineScript.Text.Slice

/-! # Help

What the program says about itself, and about a command that was not understood. -/

namespace PipelineScript.CommandLine

def programName : String := "nf"

/-- Rows of two columns, the first one as wide as its widest entry. -/
def rows (entries : List (String × String)) : String :=
  let width := (entries.map fun (left, _) => left.length).foldl max 0
  String.join (entries.map fun (left, right) => s!"  {Text.padRight width left}  {right}\n")

def Flag.usage (f : Flag) : String :=
  (match f.short? with
    | some c => "-" ++ String.singleton c ++ ", "
    | none => "    ") ++
  "--" ++ f.long ++
  match f.valueName? with
  | some name => s!" <{name}>"
  | none => ""

def flagRows (flags : List Flag) : String := rows (flags.map fun f => (f.usage, f.description))

def helpDescription : String := "Print this message or the help of the given subcommand(s)"

namespace Topic

def usage : Topic → String
  | general => s!"Usage: {programName} [OPTIONS] <COMMAND>\n"
  | command name =>
    s!"Usage: {programName} {name.text} [OPTIONS]" ++
      (if name.takesFile then " <FILE>\n" else "\n")
  | help => s!"Usage: {programName} help [COMMAND]...\n"

def text (t : Topic) : String :=
  match t with
  | general =>
    "NF - run, check and inspect NF pipeline scripts\n\n" ++ t.usage ++ "\nCommands:\n" ++
      rows (CommandName.all.map (fun c => (c.text, c.description)) ++ [("help", helpDescription)]) ++
      "\nOptions:\n" ++ flagRows [.config, .help]
  | command name =>
    name.description ++ "\n\n" ++ t.usage ++
      (if name.takesFile then "\nArguments:\n" ++ rows [("<FILE>", "Script file")] else "") ++
      "\nOptions:\n" ++ flagRows name.flags
  | help =>
    helpDescription ++ "\n\n" ++ t.usage ++ "\nArguments:\n" ++
      rows [("[COMMAND]...", "Print help for the subcommand(s)")]

end Topic

def Misuse.text (m : Misuse) : String :=
  s!"error: {m.message}\n\n{Topic.general.usage}\nFor more information, try '--help'.\n"

end PipelineScript.CommandLine
