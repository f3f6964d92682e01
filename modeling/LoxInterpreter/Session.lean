import LoxInterpreter.Check
import LoxInterpreter.Run.Evaluate

/-!
# Sessions

A session runs one text after the other on one machine and one report. A text runs only if nothing
is wrong with it, and nothing was wrong before; its failure goes to the report.

* `Session.run` runs a text; it says how the run escaped, if it did not come to an end of its own.
  `Session.runBy` does so for any way to find names.
* `Session.respond` runs a line of an interactive session, complains about it, and forgives it.
* `Session.converse` does so for all lines.
-/

namespace LoxInterpreter

/-- A machine, the report on what ran on it, and what the functions of the host answer. -/
structure Session where
  report : Report
  machine : Machine
  answers : Answers

/-- How the run of a text can escape. -/
inductive Escape where
  /-- The report gave up. -/
  | givingUp (why : GivingUp)
  /-- Evaluation went wrong in a way that no program is to blame for. -/
  | fault (what : Fault)
  /-- A loop went round more often than it may. -/
  | exhausted
  deriving DecidableEq

/-- The wording of a fault. -/
def Fault.message : Fault → String
  | access (.offChain distance) =>
    "Resolved distance " ++ toString distance ++ " runs off the end of the chain."
  | access (.unbound name) => name
  | unassignable name => name.describe
  | unlinkedSuper => "super"
  | badOperator op => op.describe
  | returnAtTopLevel => "The resolver forbids top-level return."
  | dangling => "dangling"

/-- Deep enough for programs that end, and shallow enough for the stack that runs them. -/
def Run.Limits.standard : Run.Limits := ⟨600, 1000000000000000⟩

namespace Session

/-- A session in which nothing has happened, with the usual host. -/
def fresh (report : Report) (natives : List Native) (clock : Float) : Session :=
  ⟨report, Machine.initial natives clock, .usual⟩

/-- Run a text, finding names in a given way. -/
def runBy (names : Run.Names) (limits : Run.Limits) (text : String) (s : Session) :
    Session × Option Escape :=
  match Reporting.check text s.report with
  | .error why report => ({ s with report }, some (.givingUp why))
  | .ok none report => ({ s with report }, none)
  | .ok (some program) report =>
    match Run.interpret (limits.hostBy names s.answers) program s.machine with
    | .ok _ machine => ({ s with report, machine }, none)
    | .error (.failure token cause) machine =>
      ({ s with report := { report with failure := some ⟨token, cause.message⟩ }, machine }, none)
    | .error (.fault what) machine => ({ s with report, machine }, some (.fault what))
    | .error .exhausted machine => ({ s with report, machine }, some .exhausted)

/-- Run a text. -/
def run (limits : Run.Limits) (text : String) (s : Session) : Session × Option Escape :=
  s.runBy .byDistance limits text

/-- Forget the issues and the failure. -/
def reset (s : Session) : Session := { s with report := s.report.reset }

/-- What a session has written since it was last asked. -/
structure Exchange where
  /-- What programs printed. -/
  output : String
  /-- What the report told. -/
  console : String
  deriving DecidableEq, Repr

/-- Take away what has been written. -/
def drain (s : Session) : Exchange × Session :=
  (⟨s.machine.output, s.report.console⟩,
    { s with report := { s.report with console := "" }, machine := { s.machine with output := "" } })

/-- Complain about a text that left something to complain about, and forgive it. -/
def settle (s : Session) : Session :=
  let report := if s.report.hasComplaint then s.report.complain else s.report
  { s with report := report.reset }

/-- What a line of an interactive session comes to. -/
structure Reply where
  exchange : Exchange
  session : Session
  /-- Why the session cannot go on after it. -/
  escape : Option Escape

/-- Run a line of an interactive session. That the report gave up is no reason to stop. -/
def respond (limits : Run.Limits) (line : String) (s : Session) : Reply :=
  match s.run limits line with
  | (s, none) | (s, some (.givingUp _)) =>
    let (exchange, s) := s.settle.drain
    ⟨exchange, s, none⟩
  | (s, some escape) =>
    let (exchange, s) := s.drain
    ⟨exchange, s, some escape⟩

/-- Run the lines of an interactive session in order, as long as none escapes. -/
def converse (limits : Run.Limits) : List String → Session → List Exchange × Option Escape
  | [], _ => ([], none)
  | line :: rest, s =>
    let reply := s.respond limits line
    match reply.escape with
    | some escape => ([reply.exchange], some escape)
    | none =>
      let (exchanges, escape) := converse limits rest reply.session
      (reply.exchange :: exchanges, escape)

end Session

end LoxInterpreter
