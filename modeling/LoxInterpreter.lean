import LoxInterpreter.Main
import LoxInterpreter.Proofs.CommandLine.Verdict
import LoxInterpreter.Proofs.Gaps.Operators
import LoxInterpreter.Proofs.Grammar.Recovery
import LoxInterpreter.Proofs.Heap.Sessions
import LoxInterpreter.Proofs.Identity.Table
import LoxInterpreter.Proofs.Loop.Desugared
import LoxInterpreter.Proofs.Render.Determined
import LoxInterpreter.Proofs.Report.Numbering
import LoxInterpreter.Proofs.Run.Conversation
import LoxInterpreter.Proofs.Run.Current
import LoxInterpreter.Proofs.Run.Search
import LoxInterpreter.Proofs.Scope.Wrong
import LoxInterpreter.Proofs.Tape.Progress
import LoxInterpreter.Proofs.Twin.Braces
import LoxInterpreter.Proofs.Twin.Layout
import LoxInterpreter.Proofs.Twin.Locals
import LoxInterpreter.Proofs.Watch.Calls
