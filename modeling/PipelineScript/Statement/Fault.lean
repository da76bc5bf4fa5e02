import PipelineScript.Diagnostic
import PipelineScript.Token

/-! Why tokens are no statements. -/

namespace PipelineScript

inductive StatementCause where
  | openBlock
  | strayClose
  | unrecognized (shown : String)
  /-- Something is left out that has no fixed spelling. -/
  | expected (what : String)
  /-- A mark is left out; `what` says which one and what it is for. -/
  | expectedMark (mark : Punct) (what : String)
  | expectedKeyword (word : Keyword)
  | openParenthesis (what : String)
  | emptyParentheses (what : String)
  | reservedName (name : String)
  | keywordName (word : Keyword) (what : String)
  | trailing (shown statement : String)
  | noTaskKey
  | duplicateTaskKey (key : String)
  | openTaskEntry
  | noArm
  | noRangeStart
  | noRangeStop
  | noIterable
  | duplicateParameter (name : String)
deriving DecidableEq, Repr

namespace StatementCause

def message : StatementCause → String
  | openBlock => "unexpected end of input inside a block"
  | strayClose => "unexpected '\x7d' outside of a block"
  | unrecognized shown => s!"unrecognized statement starting with '{shown}'"
  | expected what => s!"expected {what}"
  | expectedMark _ what => s!"expected {what}"
  | expectedKeyword word => s!"expected keyword '{word.text}'"
  | openParenthesis what => s!"unclosed '(' around the {what}"
  | emptyParentheses what => s!"empty {what}"
  | reservedName name => s!"'{name}' is a reserved system name"
  | keywordName word what => s!"'{word.text}' is a keyword and cannot be used as {what}"
  | trailing shown statement => s!"unexpected '{shown}' after {statement} statement"
  | noTaskKey => "expected a task key"
  | duplicateTaskKey key => s!"duplicate task key '{key}'"
  | openTaskEntry => "expected a line end, ',' or '\x7d' after the task entry"
  | noArm => "expected 'case', 'default' or '\x7d' inside switch"
  | noRangeStart => "range is missing its start"
  | noRangeStop => "range is missing its end"
  | noIterable => "expected a range or collection after 'in'"
  | duplicateParameter name => s!"duplicate parameter '{name}'"

def suggestion : StatementCause → String
  | openBlock => "close the block with '\x7d'"
  | strayClose => "remove the extra '\x7d'"
  | unrecognized _ =>
    "start the statement with one of: import, declare, run, task, export, echo, if, switch, " ++
      "for, while, break, breakAll, continue, return, function, or write \x60name = value\x60 / " ++
      "\x60name(args)\x60"
  | expected what => s!"write {what} here"
  | expectedMark mark _ => s!"insert '{mark.text}'"
  | expectedKeyword word => s!"insert '{word.text}'"
  | openParenthesis _ => "add ')'"
  | emptyParentheses what => s!"write the {what} inside the parentheses"
  | reservedName _ => "names starting with '$' are read-only; pick a name without '$'"
  | keywordName .. => "pick a different name"
  | trailing .. => "put each statement on its own line or separate statements with ';'"
  | noTaskKey => "write entries as \x60key: tool(args)\x60"
  | duplicateTaskKey _ => "give every task entry a unique key"
  | openTaskEntry => "put each task entry on its own line"
  | noArm => "start each branch with \x60case value:\x60 or \x60default:\x60"
  | noRangeStart | noRangeStop => "write ranges as \x60start..end\x60"
  | noIterable => "write \x60for item in items \x7b ... \x7d\x60 or \x60for i in 1..10 \x7b ... \x7d\x60"
  | duplicateParameter _ => "give every parameter a unique name"

end StatementCause

end PipelineScript
