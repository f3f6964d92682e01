import LoxInterpreter.Run.Failure

/-!
# Operators

Truth, equality and arithmetic on values. Numbers are doubles: division by zero and overflow follow
the arithmetic of doubles and are no errors.
-/

namespace LoxInterpreter

namespace Value

/-- Only `nil` and `false` count as false. -/
def truthy : Value → Bool
  | nil => false
  | bool b => b
  | _ => true

/-- Equality without conversions. Numbers compare as doubles, so that NaN differs from itself;
functions, classes and instances are equal to themselves alone. -/
def equals : Value → Value → Bool
  | number x, number y => x == y
  | a, b => a == b

end Value

namespace Run

/-- Apply a prefix operator. -/
def applyUnary (op : Token) (operand : Value) : Run Value :=
  match op.kind with
  | .bang => return .bool !operand.truthy
  | .minus =>
    match operand with
    | .number x => return .number (-x)
    | _ => failAt op .operandNotNumber
  | _ => faultWith (.badOperator op)

/-- Add numbers, or join texts. -/
def add (op : Token) : Value → Value → Run Value
  | .number x, .number y => return .number (x + y)
  | .text s, .text t => return .text (s ++ t)
  | _, _ => failAt op .operandsNotAddable

/-- An operator that takes numbers alone. -/
def arithmetic? : TokenKind → Option (Float → Float → Value)
  | .minus => some fun x y => .number (x - y)
  | .star => some fun x y => .number (x * y)
  | .slash => some fun x y => .number (x / y)
  | .greater => some fun x y => .bool (decide (y < x))
  | .greaterEqual => some fun x y => .bool (decide (y ≤ x))
  | .less => some fun x y => .bool (decide (x < y))
  | .lessEqual => some fun x y => .bool (decide (x ≤ y))
  | _ => none

/-- Apply an operator between two operands. -/
def applyBinary (op : Token) (left right : Value) : Run Value :=
  match op.kind with
  | .plus => add op left right
  | .equalEqual => return .bool (left.equals right)
  | .bangEqual => return .bool !left.equals right
  | kind =>
    match left, right with
    | .number x, .number y =>
      match arithmetic? kind with
      | some f => return f x y
      | none => faultWith (.badOperator op)
    | _, _ => failAt op .operandsNotNumbers

/-- The left operand settles the question of a logical operator: anything true settles `or`,
anything false settles `and`. -/
def settles (op : Token) (left : Value) : Bool :=
  if op.kind = .orWord then left.truthy else !left.truthy

end Run

end LoxInterpreter
