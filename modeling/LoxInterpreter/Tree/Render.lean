import LoxInterpreter.Tree
import LoxInterpreter.Spelling

/-!
# Trees as parenthesised text

Every node becomes a list in parentheses, its operator first, like `(* (- 123) (group 45.67))`.
The text does not depend on the links of the tree.
-/

namespace LoxInterpreter

variable {ρ : Type}

/-- Words between parentheses, separated by single spaces. -/
def parenthesize (words : List String) : String :=
  "(" ++ " ".intercalate words ++ ")"

/-- A literal as it is written in a program. -/
def Literal.render : Literal → String
  | .text s => "\"" ++ s ++ "\""
  | other => other.shown

namespace Expr

mutual

/-- The text of an expression. -/
def render : Expr ρ → String
  | .literal value => value.render
  | .grouping inner => parenthesize ["group", inner.render]
  | .unary op operand => parenthesize [op.lexeme, operand.render]
  | .binary left op right => parenthesize [op.lexeme, left.render, right.render]
  | .logical left op right => parenthesize [op.lexeme, left.render, right.render]
  | .reference target => target.name
  | .assign target value => parenthesize ["=", target.name, value.render]
  | .call callee _ values => parenthesize ("call" :: callee.render :: renderAll values)
  | .property object name => parenthesize [".", object.render, name.lexeme]
  | .setProperty object name value =>
    parenthesize ["=", parenthesize [".", object.render, name.lexeme], value.render]
  | .this _ => "this"
  | .inherited _ method => parenthesize ["super", method.lexeme]

/-- The texts of several expressions. -/
def renderAll : List (Expr ρ) → List String
  | [] => []
  | e :: rest => e.render :: renderAll rest

end

end Expr

namespace Stmt

mutual

/-- The text of a statement. -/
def render : Stmt ρ → String
  | .malformed => "(error)"
  | .expression value => value.render
  | .print value => parenthesize ["print", value.render]
  | .declare name none => parenthesize ["var", name.lexeme]
  | .declare name (some initial) => parenthesize ["var", name.lexeme, initial.render]
  | .block body => parenthesize ("block" :: renderAll body)
  | .branch condition whenTrue none => parenthesize ["if", condition.render, whenTrue.render]
  | .branch condition whenTrue (some whenFalse) =>
    parenthesize ["if", condition.render, whenTrue.render, whenFalse.render]
  | .loop condition body => parenthesize ["while", condition.render, body.render]
  | .function routine => renderRoutine routine
  | .giveBack _ none => "(return)"
  | .giveBack _ (some value) => parenthesize ["return", value.render]
  | .klass name superclass methods =>
    let head := match superclass with
      | some target => [name.lexeme, "<", target.name]
      | none => [name.lexeme]
    parenthesize ("class" :: head ++ renderRoutines methods)

/-- The texts of several statements. -/
def renderAll : List (Stmt ρ) → List String
  | [] => []
  | s :: rest => s.render :: renderAll rest

/-- The text of a function or method. -/
def renderRoutine : Routine ρ → String
  | .mk name params body =>
    let heads := "(" ++ " ".intercalate (params.map (·.lexeme)) ++ ")"
    parenthesize ("fun" :: name.lexeme :: heads :: renderAll body)

/-- The texts of several methods. -/
def renderRoutines : List (Routine ρ) → List String
  | [] => []
  | m :: rest => renderRoutine m :: renderRoutines rest

end

end Stmt

end LoxInterpreter
