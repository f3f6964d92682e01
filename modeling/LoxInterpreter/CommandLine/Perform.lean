import LoxInterpreter.Session
import LoxInterpreter.Tree.Render
import LoxInterpreter.CommandLine.Options
import LoxInterpreter.CommandLine.Folder

/-!
# What the program does

From arguments, files and lines of input to what is written and how the program ends.

* `runScript` runs the text of a script, or checks it, or shows its trees.
* `interact` holds an interactive session.
* `perform` reads the arguments and does the one or the other.
-/

namespace LoxInterpreter

namespace ExitStatus

/-- All went well. -/
def success : Nat := 0

/-- The arguments make no sense. -/
def usage : Nat := 64

/-- The script has issues. -/
def badInput : Nat := 65

/-- The script cannot be read. -/
def noInput : Nat := 66

/-- The script failed while it ran. -/
def failed : Nat := 70

end ExitStatus

/-- How the program ends. -/
inductive Ending where
  | exit (status : Nat)
  /-- The bytes of the script are no text. -/
  | undecodable
  | escaped (escape : Escape)
  deriving DecidableEq

/-- What is written to the two channels, and how it ends. -/
structure Performance where
  output : String
  console : String
  ending : Ending
  deriving DecidableEq

/-- What a performance needs to know besides its input. -/
structure Stage where
  limits : Run.Limits
  dice : Dice
  clock : Float

namespace CommandLine

/-- The line that shows how the program is called. -/
def usageLine : String := "usage: lox [-h] [-c] [-t] [-v] [script]\n"

/-- The text that explains the arguments. -/
def helpText : String :=
  usageLine ++ "\n" ++
  "Tree-walking interpreter for the Lox programming language.\n\n" ++
  "positional arguments:\n" ++
  "  script         Path to a Lox program. Omit it for an interactive session.\n\n" ++
  "options:\n" ++
  "  -h, --help     show this help message and exit\n" ++
  "  -c, --check    Scan, parse, and resolve the program but do not actually run\n" ++
  "                 it.\n" ++
  "  -t, --tree     Print the syntax tree of each top-level statement instead of\n" ++
  "                 running.\n" ++
  "  -v, --verbose  Chatter about progress on stderr.\n"

/-- The prompt of an interactive session. -/
def prompt : String := "> "

/-- Line breaks of all kinds become line feeds. -/
def unifyBreaks : List Char → List Char
  | [] => []
  | '\r' :: '\n' :: rest => '\n' :: unifyBreaks rest
  | c :: rest => (if c = '\r' then '\n' else c) :: unifyBreaks rest

/-- The text of a script. -/
def decode (content : ByteArray) : Option String :=
  (String.fromUTF8? content).map fun s => String.ofList (unifyBreaks s.toList)

/-- The status in which a script leaves the program, and the report with the complaints and the
last words on it. -/
def conclude (options : Options) (report : Report) (gaveUp : Bool) : Report × Nat :=
  if gaveUp then
    let report := report.complain.writeLine (String.join (List.replicate 35 " *"))
    (report.writeLine "Giving up after a few issues. One crisis at a time, eh?",
      ExitStatus.badInput)
  else if report.sick then (report.complain, ExitStatus.badInput)
  else if report.failure.isSome then (report.complain, ExitStatus.failed)
  else if options.check then (report.writeLine "Looks plausible to me.", ExitStatus.success)
  else (report, ExitStatus.success)

/-- End a script. -/
def finish (options : Options) (output : String) (report : Report) (gaveUp : Bool) :
    Performance :=
  let (report, status) := conclude options report gaveUp
  ⟨output, report.console, .exit status⟩

/-- Run the text of a script, or check it, or show its trees, whatever the options say. Showing
trees comes before checking. -/
def runText (stage : Stage) (options : Options) (text : String) : Performance :=
  let report := Report.fresh (options.verbose != 0) Report.defaultMaxIssues stage.dice
  if options.tree then
    match Reporting.parseText text report with
    | .ok statements report =>
      finish options (String.join (statements.map fun s => s.render ++ "\n")) report false
    | .error _ report => finish options "" report true
  else if options.check then
    match Reporting.check text report with
    | .ok _ report => finish options "" report false
    | .error _ report => finish options "" report true
  else
    match (Session.fresh report [.clock] stage.clock).run stage.limits text with
    | (s, none) => finish options s.machine.output s.report false
    | (s, some (.givingUp _)) => finish options s.machine.output s.report true
    | (s, some escape) => ⟨s.machine.output, s.report.console, .escaped escape⟩

/-- Run a script from what reading it gave. -/
def runScript (stage : Stage) (options : Options) (path : String)
    (content : Except ReadError ByteArray) : Performance :=
  match content with
  | .error e =>
    ⟨"", "Could not read " ++ Path.display path ++ ": " ++ e.message ++ "\n",
      .exit ExitStatus.noInput⟩
  | .ok bytes =>
    match decode bytes with
    | some text => runText stage options text
    | none => ⟨"", "", .undecodable⟩

/-- The lines of a text, each with its line feed; the last may lack it. -/
def inputLines (text : List Char) : List String :=
  let lines := text.foldr (fun c lines =>
    if c = '\n' then [c] :: lines
    else match lines with
      | line :: rest => (c :: line) :: rest
      | [] => [[c]]) []
  lines.map String.ofList

/-- The session that interaction starts with. -/
def openSession (stage : Stage) (options : Options) : Session :=
  .fresh (.fresh (options.verbose != 0) Report.defaultMaxIssues stage.dice) [.clock] stage.clock

/-- Hold an interactive session: a prompt before every line, and one at the end of input, after
which the line is ended. -/
def interact (stage : Stage) (options : Options) (lines : List String) : Performance :=
  let (exchanges, escape) := (openSession stage options).converse stage.limits lines
  let output := String.join (exchanges.map fun e => prompt ++ e.output)
  let console := String.join (exchanges.map Session.Exchange.console)
  match escape with
  | none => ⟨output ++ prompt ++ "\n", console, .exit ExitStatus.success⟩
  | some escape => ⟨output, console, .escaped escape⟩

/-- Complain about the arguments. -/
def refuse (e : UsageError) : Performance :=
  ⟨"", usageLine ++ "lox: error: " ++ e.message ++ "\n", .exit ExitStatus.usage⟩

/-- Do what the arguments ask for. -/
def perform (stage : Stage) (arguments : List String) (folder : Folder) (input : String) :
    Performance :=
  match Options.read arguments with
  | .error e => refuse e
  | .ok .help => ⟨helpText, "", .exit ExitStatus.success⟩
  | .ok (.start options) =>
    match options.script with
    | some path => runScript stage options path (folder.read path)
    | none => interact stage options (inputLines input.toList)

end CommandLine

end LoxInterpreter
