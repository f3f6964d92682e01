import LoxInterpreter.Token
import LoxInterpreter.Decimal.Notation
import LoxInterpreter.Text.Quoted

/-!
# How literals and tokens are shown

A literal has two spellings: the one under which a program prints it, and the one under which tree
nodes show it, where text is quoted and every number has a fraction or an exponent.
-/

namespace LoxInterpreter

namespace Literal

/-- The text that `print` gives for a literal. -/
def shown : Literal → String
  | nil => "nil"
  | bool true => "true"
  | bool false => "false"
  | number x => NumberFormat.shown.write x
  | text s => s

/-- The text that a tree node shows for a literal. -/
def debug : Literal → String
  | nil => "None"
  | bool true => "True"
  | bool false => "False"
  | number x => NumberFormat.debug.write x
  | text s => Quoted.encode s

end Literal

/-- A token on one line: its kind, its lexeme, and its literal, where text is not quoted. -/
def Token.describe (t : Token) : String :=
  let literal := match t.literal with
    | some (.text s) => s
    | some other => other.debug
    | none => "None"
  t.kind.name ++ " " ++ t.lexeme ++ " " ++ literal

end LoxInterpreter
