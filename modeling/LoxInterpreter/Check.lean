import LoxInterpreter.Scan
import LoxInterpreter.Parse.Statement
import LoxInterpreter.Scope.Mistake
import LoxInterpreter.Scope.Table
import LoxInterpreter.Report

/-!
# Everything short of running a program

Scanning, parsing and scope analysis with their mistakes recorded in a report. Each phase finishes
and records all that it finds before the next one is called off.
-/

namespace LoxInterpreter

namespace Reporting

/-- Scan a text, and record what is wrong with it. The text becomes the source of illustrations. -/
def scanText (text : String) : Reporting Scan := do
  modify fun r => { r with source := text }
  let scanned := scan text
  scanned.mistakes.forM fun m => errorAtPlace m.line m.offset m.cause.message
  return scanned

/-- Parse a text, and record what is wrong with it. A mistake at the end is blamed on the token that
stands for the end. -/
def parseText (text : String) : Reporting (List (Stmt Blank)) := do
  let scanned ← scanText text
  let parsed := parse scanned.tokens
  parsed.mistakes.forM fun m => error (m.token.getD scanned.endToken) m.cause.message
  return parsed.statements

/-- Fill in the links of a program, and record what is wrong with its scopes. -/
def link (statements : List (Stmt Blank)) : Reporting (List (Stmt Place)) := do
  (scopeMistakes statements).forM fun m => error m.token m.cause.message
  return linkProgram statements

/-- Everything short of running a text: a linked program, or nothing if the report is sick. -/
def check (text : String) : Reporting (Option (List (Stmt Place))) := do
  let statements ← parseText text
  if (← get).sick then return none
  info ["Parsed " ++ toString statements.length ++ " top-level statement(s)."]
  let linked ← link statements
  if (← get).sick then return none
  info ["Resolved " ++ toString (localTable linked).length ++ " local reference(s)."]
  return some linked

end Reporting

end LoxInterpreter
