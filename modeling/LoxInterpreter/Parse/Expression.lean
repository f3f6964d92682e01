import LoxInterpreter.Parse.Step

/-!
# Parsing expressions

One parser for each level of binding strength, loosest last: primary expressions, calls, prefix
operators, the four levels of left-associative operators, `and`, `or`, and assignment, which
associates to the right. Each takes the parser for whole expressions as a parameter, and
`expressionAt` ties the knot.

The target of an assignment is recognised after the fact: it is parsed as an ordinary expression,
and an equals sign turns a variable or a property into the place to write to.
-/

namespace LoxInterpreter.Parse

section Levels

variable (nested : Parse (Expr Blank))

/-- Arguments up to the closing parenthesis, which is left where it is. `count` arguments came
before. -/
def arguments : Nat → Nat → Parse (List (Expr Blank))
  | 0, _ => throw .stuck
  | bound + 1, count => do
    if maxArguments ≤ count then complain (← next?) .tooManyArguments
    let argument ← nested
    match ← accept [.comma] with
    | some _ => return argument :: (← arguments bound (count + 1))
    | none => return [argument]

/-- Names, literals, `this`, `super.name`, and expressions in parentheses. -/
def primary : Parse (Expr Blank) :=
  dispatch (fail .noExpression) fun t =>
    match t.kind with
    | .falseWord => some (return .literal (.bool false))
    | .trueWord => some (return .literal (.bool true))
    | .nilWord => some (return .literal .nil)
    | .number | .string => some (return .literal (t.literal.getD .nil))
    | .superWord => some do
      let _ ← expect .dot .superDot
      let method ← expect .identifier .superMethod
      return .inherited ⟨t, ()⟩ method
    | .thisWord => some (return .this ⟨t, ()⟩)
    | .identifier => some (return .reference ⟨t, ()⟩)
    | .leftParen => some do
      let inner ← nested
      let _ ← expect .rightParen .groupClose
      return .grouping inner
    | _ => none

/-- The argument lists and property names that follow an expression. -/
def postfixes : Nat → Expr Blank → Parse (Expr Blank)
  | 0, _ => throw .stuck
  | bound + 1, callee => do
    match ← accept [.leftParen, .dot] with
    | none => return callee
    | some t =>
      if t.kind = .leftParen then
        let values ← if ← nextIs .rightParen then pure [] else arguments nested (bound + 1) 0
        let paren ← expect .rightParen .argumentsClose
        postfixes bound (.call callee paren values)
      else
        let name ← expect .identifier .propertyName
        postfixes bound (.property callee name)

/-- A primary expression with what follows it. -/
def call (bound : Nat) : Parse (Expr Blank) := do
  postfixes nested bound (← primary nested)

/-- Prefix operators. -/
def unary (bound : Nat) : Nat → Parse (Expr Blank)
  | 0 => throw .stuck
  | more + 1 => do
    match ← accept [.bang, .minus] with
    | some op => return .unary op (← unary bound more)
    | none => call nested bound

end Levels

/-- What follows the first operand of a level of left-associative operators. -/
def operands (kinds : List TokenKind) (node : Expr Blank → Token → Expr Blank → Expr Blank)
    (operand : Parse (Expr Blank)) : Nat → Expr Blank → Parse (Expr Blank)
  | 0, _ => throw .stuck
  | bound + 1, left => do
    match ← accept kinds with
    | none => return left
    | some op => operands kinds node operand bound (node left op (← operand))

/-- A level of left-associative operators. -/
def leftAssociative (kinds : List TokenKind)
    (node : Expr Blank → Token → Expr Blank → Expr Blank) (bound : Nat)
    (operand : Parse (Expr Blank)) : Parse (Expr Blank) := do
  operands kinds node operand bound (← operand)

section Levels

variable (nested : Parse (Expr Blank)) (bound : Nat)

/-- Products and quotients. -/
def factor : Parse (Expr Blank) :=
  leftAssociative [.slash, .star] .binary bound (unary nested bound bound)

/-- Sums and differences. -/
def term : Parse (Expr Blank) :=
  leftAssociative [.minus, .plus] .binary bound (factor nested bound)

/-- Comparisons of order. -/
def comparison : Parse (Expr Blank) :=
  leftAssociative [.greater, .greaterEqual, .less, .lessEqual] .binary bound (term nested bound)

/-- Comparisons for equality. -/
def equality : Parse (Expr Blank) :=
  leftAssociative [.bangEqual, .equalEqual] .binary bound (comparison nested bound)

/-- Operands joined by `and`. -/
def conjunction : Parse (Expr Blank) :=
  leftAssociative [.andWord] .logical bound (equality nested bound)

/-- Operands joined by `or`. -/
def disjunction : Parse (Expr Blank) :=
  leftAssociative [.orWord] .logical bound (conjunction nested bound)

/-- An assignment, or an expression of a tighter level. An expression that cannot be written to is
a mistake blamed on the equals sign; it stands for the whole, and parsing goes on. -/
def assignment : Parse (Expr Blank) := do
  let target ← disjunction nested bound
  match ← accept [.equal] with
  | none => return target
  | some equals =>
    let value ← nested
    match target with
    | .reference r => return .assign r value
    | .property object name => return .setProperty object name value
    | _ =>
      complain (some equals) .invalidTarget
      return target

end Levels

/-- Expressions. The bound has to exceed the number of tokens left. -/
def expressionAt : Nat → Parse (Expr Blank)
  | 0 => throw .stuck
  | n + 1 => assignment (expressionAt n) (n + 1)

end LoxInterpreter.Parse
