import LoxInterpreter.Token
import LoxInterpreter.Report.Issue
import LoxInterpreter.Report.Outburst

/-!
# Reports

The one place where a run keeps track of what went wrong. Issues, which are found before a program
runs, accumulate; the failure of a running program is kept apart from them. A report gives up once
it holds as many issues as it may.

* `Reporting` is the monad of steps on a report; `Reporting.issue` is the one step that gives up.
* `Reporting.complain` writes everything to the console.
-/

namespace LoxInterpreter

/-- The failure of a running program. -/
structure Failure where
  token : Token
  message : String
  deriving DecidableEq

/-- What went wrong so far, and what has been written to the console. -/
structure Report where
  /-- Progress is worth a line on the console. -/
  verbose : Bool
  /-- The number of issues at which to give up; zero for never. -/
  maxIssues : Nat
  issues : Array Issue
  /-- The text that illustrations quote. -/
  source : String
  failure : Option Failure
  /-- What has been written to the console. -/
  console : String
  dice : Dice

namespace Report

/-- The number of issues at which a report gives up unless told otherwise. -/
def defaultMaxIssues : Nat := 25

/-- A report on nothing yet. -/
def fresh (verbose : Bool) (maxIssues : Nat) (dice : Dice) : Report :=
  ⟨verbose, maxIssues, #[], "", none, "", dice⟩

/-- There are issues. -/
def sick (r : Report) : Bool := !r.issues.isEmpty

/-- There is something to complain about. -/
def hasComplaint (r : Report) : Bool := r.sick || r.failure.isSome

/-- The report without its issues and its failure. -/
def reset (r : Report) : Report := { r with issues := #[], failure := none }

/-- Write a line to the console. -/
def writeLine (r : Report) (line : String) : Report :=
  { r with console := r.console ++ line ++ "\n" }

/-- The issues, and the failure in the shape of an issue. -/
def complaints (r : Report) : List Issue :=
  r.issues.toList ++
    match r.failure with
    | some f => [⟨f.message, [], ["[line " ++ toString f.token.line ++ "]"]⟩]
    | none => []

/-- Write everything to the console: an outburst, if there is anything to be upset about, and then
the complaints. -/
def complain (r : Report) : Report :=
  match r.complaints with
  | [] => r
  | complaints =>
    let (outburst, dice) := r.dice.outburst
    let opened := ({ r with dice := dice }.writeLine ("".pushn '*' 60)).writeLine outburst
    let rule := String.join (List.replicate 20 "  -")
    complaints.foldl (fun r i => (r.writeLine rule).writeLine i.text) opened

/-- The issue of a mistake blamed on a token. -/
def issueAt (r : Report) (token : Token) (message : String) : Issue :=
  let line := "[line " ++ toString token.line ++ "] Error at "
  match token.kind with
  | .endOfText => ⟨line ++ "end: " ++ message, [], []⟩
  | _ =>
    ⟨line ++ "'" ++ token.lexeme ++ "': " ++ message,
      [⟨r.source, token.line, token.offset, token.lexeme.length, ""⟩], []⟩

/-- The issue of a mistake at a place where there is no token to blame. -/
def issueAtPlace (r : Report) (line : Int) (offset : Nat) (message : String) : Issue :=
  ⟨"[line " ++ toString line ++ "] Error: " ++ message, [⟨r.source, line, offset, 1, ""⟩], []⟩

end Report

/-- Why a step on a report did not go on. -/
inductive GivingUp where
  /-- The report holds as many issues as it may. -/
  | tooManyIssues
  /-- There are issues where there should be none. -/
  | unexpectedIssues (message : String)
  deriving DecidableEq, Repr

/-- Steps on a report that yield an `α`. The report survives giving up. -/
abbrev Reporting (α : Type) := EStateM GivingUp Report α

namespace Reporting

/-- Record an issue. The report gives up when it then holds exactly as many as it may, so never
again after that. -/
def issue (i : Issue) : Reporting Unit := do
  modify fun r => { r with issues := r.issues.push i }
  let r ← get
  if r.issues.size = r.maxIssues then throw .tooManyIssues

/-- Record a mistake blamed on a token. -/
def error (token : Token) (message : String) : Reporting Unit := do
  issue ((← get).issueAt token message)

/-- Record a mistake at a place where there is no token to blame. -/
def errorAtPlace (line : Int) (offset : Nat) (message : String) : Reporting Unit := do
  issue ((← get).issueAtPlace line offset message)

/-- Record an issue about some places in the present source. Each place is given by the line number
to show, its offset, its width and its caption. -/
def issueAbout (headline : String) (places : List (Int × Nat × Int × String))
    (footers : List String) : Reporting Unit := do
  let source := (← get).source
  issue ⟨headline, places.map fun (line, offset, width, caption) =>
    ⟨source, line, offset, width, caption⟩, footers⟩

/-- Tell about progress, if that is wanted. -/
def info (words : List String) : Reporting Unit :=
  modify fun r => if r.verbose then r.writeLine (" ".intercalate words) else r

/-- Complain and give up if there are issues. -/
def assertNoIssues (message : String) : Reporting Unit := do
  if (← get).sick then
    modify Report.complain
    let (outburst, dice) := (← get).dice.outburst
    modify fun r => { r with dice := dice }
    throw (.unexpectedIssues (outburst ++ " " ++ message))

end Reporting

end LoxInterpreter
