import LoxInterpreter.Token

/-!
# Syntax trees

Programs as the parser builds them. Trees carry a *link* at every occurrence of a name that refers
to a binding: a variable, the target of an assignment, `this`, `super`, and the superclass in the
head of a class. The parser leaves the links blank (`Blank`); scope analysis fills in a
`Place` at each of them, so that two occurrences of one name can never share an answer.

There is no node for the `for` loop: it is written with `loop` and `block`.
-/

namespace LoxInterpreter

/-- The link of a tree that has not been analysed yet. -/
abbrev Blank := Unit

/-- Where a name finds its binding when the program runs. -/
inductive Place where
  /-- Among the globals, if anywhere. -/
  | global
  /-- In the frame that many steps out from the current one. -/
  | outward (distance : Nat)
  deriving DecidableEq, Repr, Inhabited

/-- One occurrence of a name that refers to a binding. -/
structure Reference (ρ : Type) where
  token : Token
  link : ρ
  deriving DecidableEq, Inhabited

/-- The name that a reference mentions. -/
abbrev Reference.name {ρ : Type} (r : Reference ρ) : String := r.token.lexeme

/-- Expressions. -/
inductive Expr (ρ : Type) where
  | literal (value : Literal)
  | grouping (inner : Expr ρ)
  | unary (op : Token) (operand : Expr ρ)
  | binary (left : Expr ρ) (op : Token) (right : Expr ρ)
  /-- `and` and `or`, which evaluate their right side only if the left does not settle them. -/
  | logical (left : Expr ρ) (op : Token) (right : Expr ρ)
  | reference (target : Reference ρ)
  | assign (target : Reference ρ) (value : Expr ρ)
  /-- The closing parenthesis is what a failure of the call is blamed on. -/
  | call (callee : Expr ρ) (paren : Token) (arguments : List (Expr ρ))
  | property (object : Expr ρ) (name : Token)
  | setProperty (object : Expr ρ) (name : Token) (value : Expr ρ)
  | this (receiver : Reference ρ)
  | inherited (superclass : Reference ρ) (method : Token)
  deriving Inhabited

mutual

/-- Statements. -/
inductive Stmt (ρ : Type) where
  /-- The place of a statement that could not be parsed. -/
  | malformed
  | expression (value : Expr ρ)
  | print (value : Expr ρ)
  | declare (name : Token) (initial : Option (Expr ρ))
  | block (body : List (Stmt ρ))
  | branch (condition : Expr ρ) (whenTrue : Stmt ρ) (whenFalse : Option (Stmt ρ))
  | loop (condition : Expr ρ) (body : Stmt ρ)
  | function (routine : Routine ρ)
  | giveBack (keyword : Token) (value : Option (Expr ρ))
  | klass (name : Token) (superclass : Option (Reference ρ)) (methods : List (Routine ρ))

/-- A function or a method: its name, its parameters and its body. -/
inductive Routine (ρ : Type) where
  | mk (name : Token) (params : List Token) (body : List (Stmt ρ))

end

instance {ρ : Type} : Inhabited (Stmt ρ) := ⟨.malformed⟩

namespace Routine

variable {ρ : Type}

/-- The token that names the function. -/
def name : Routine ρ → Token
  | mk name _ _ => name

/-- The tokens that name the parameters. -/
def params : Routine ρ → List Token
  | mk _ params _ => params

/-- The statements of the body. -/
def body : Routine ρ → List (Stmt ρ)
  | mk _ _ body => body

end Routine

/-- The name that a statement declares in the scope it stands in. -/
def Stmt.declared? {ρ : Type} : Stmt ρ → Option Token
  | .declare name _ => some name
  | .function f => some f.name
  | .klass name _ _ => some name
  | _ => none

end LoxInterpreter
