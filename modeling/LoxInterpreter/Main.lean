import LoxInterpreter.CommandLine.Perform

/-!
# The program

Reads the arguments and the script or the lines of input, and writes what `CommandLine` makes of
them. Everything that is decided is decided there.
-/

namespace LoxInterpreter

/-- Why a file of the host cannot be read. -/
def ReadError.ofHost : IO.Error → ReadError
  | .noFileOrDirectory _ _ _ => .noSuchFile
  | .inappropriateType _ code _ => if code = 21 then .isDirectory else .notDirectory
  | e => .other (toString e)

/-- The bytes of a file of the host. -/
def readHostFile (path : String) : IO (Except ReadError ByteArray) := do
  try return .ok (← IO.FS.readBinFile path)
  catch e => return .error (ReadError.ofHost e)

/-- Write to both channels. -/
def writeBoth (output console : String) : IO Unit := do
  (← IO.getStdout).putStr output
  (← IO.getStdout).flush
  (← IO.getStderr).putStr console

/-- The status that an ending leaves behind. -/
def Ending.status : Ending → IO UInt32
  | .exit status => return status.toUInt32
  | .undecodable => do
    (← IO.getStderr).putStr "The script is not UTF-8.\n"
    return 1
  | .escaped (.fault what) => do
    (← IO.getStderr).putStr (what.message ++ "\n")
    return 1
  | .escaped _ => return 1

/-- Show a performance. -/
def Performance.play (p : Performance) : IO UInt32 := do
  writeBoth p.output p.console
  p.ending.status

/-- Seconds on the clock of the host. -/
def hostClock : IO Float := do
  return (← IO.monoMsNow).toFloat / 1000

/-- Hold an interactive session line by line. -/
partial def interactWithHost (limits : Run.Limits) (s : Session) : IO UInt32 := do
  writeBoth CommandLine.prompt ""
  let line ← (← IO.getStdin).getLine
  if line.isEmpty then
    writeBoth "\n" ""
    return 0
  let s := { s with machine := { s.machine with clock := ← hostClock } }
  let reply := s.respond limits line
  writeBoth reply.exchange.output reply.exchange.console
  match reply.escape with
  | some escape => (Ending.escaped escape).status
  | none => interactWithHost limits reply.session

/-- Throws for a run of the program. -/
def throwDice : IO Dice := do
  return Dice.ofFaces (← (List.range 97).mapM fun _ => IO.rand 0 999)

end LoxInterpreter

open LoxInterpreter in
/-- The entry point. -/
def main (arguments : List String) : IO UInt32 := do
  let stage : Stage := ⟨.standard, ← throwDice, ← hostClock⟩
  match Options.read arguments with
  | .ok (.start options) =>
    match options.script with
    | some path =>
      (CommandLine.runScript stage options path (← readHostFile path)).play
    | none => interactWithHost stage.limits (CommandLine.openSession stage options)
  | _ => (CommandLine.perform stage arguments ⟨[]⟩ "").play
