import LoxInterpreter.Scope.Link
import LoxInterpreter.Tree.Outline

/-!
# The table of local references

The mentions of names in a linked program, and among them those that scope analysis has placed in a
frame. A table lists the latter by the place of their token in the text.
-/

namespace LoxInterpreter

/-- A mention of a name: the reference and the label of its node. -/
structure Mention (ρ : Type) where
  reference : Reference ρ
  label : String

variable {ρ : Type}

namespace Expr

mutual

/-- The mentions in an expression, in the order of the text. -/
def mentions : Expr ρ → List (Mention ρ)
  | .literal _ => []
  | .grouping inner => inner.mentions
  | .unary _ operand => operand.mentions
  | .binary left _ right | .logical left _ right => left.mentions ++ right.mentions
  | .reference target => [⟨target, target.label⟩]
  | .assign target value => ⟨target, (Expr.assign target value).label⟩ :: value.mentions
  | .call callee _ values => callee.mentions ++ mentionsAll values
  | .property object _ => object.mentions
  | .setProperty object _ value => object.mentions ++ value.mentions
  | .this receiver => [⟨receiver, (Expr.this receiver).label⟩]
  | .inherited superclass method => [⟨superclass, (Expr.inherited superclass method).label⟩]

/-- The mentions in several expressions. -/
def mentionsAll : List (Expr ρ) → List (Mention ρ)
  | [] => []
  | e :: rest => e.mentions ++ mentionsAll rest

end

end Expr

namespace Stmt

mutual

/-- The mentions in a statement, in the order of the text but for the increment of a `for` loop,
which the tree holds after the body. -/
def mentions : Stmt ρ → List (Mention ρ)
  | .malformed => []
  | .expression value | .print value => value.mentions
  | .declare _ none | .giveBack _ none => []
  | .declare _ (some value) | .giveBack _ (some value) => value.mentions
  | .block body => mentionsBody body
  | .branch condition whenTrue none => condition.mentions ++ whenTrue.mentions
  | .branch condition whenTrue (some whenFalse) =>
    condition.mentions ++ whenTrue.mentions ++ whenFalse.mentions
  | .loop condition body => condition.mentions ++ body.mentions
  | .function (.mk _ _ body) => mentionsBody body
  | .klass _ superclass methods =>
    (match superclass with
      | some target => [⟨target, target.label⟩]
      | none => []) ++ mentionsMethods methods

/-- The mentions in consecutive statements. -/
def mentionsBody : List (Stmt ρ) → List (Mention ρ)
  | [] => []
  | s :: rest => s.mentions ++ mentionsBody rest

/-- The mentions in the methods of a class. -/
def mentionsMethods : List (Routine ρ) → List (Mention ρ)
  | [] => []
  | .mk _ _ body :: rest => mentionsBody body ++ mentionsMethods rest

end

end Stmt

/-- An entry of the table: a mention and how many frames out its binding is. -/
structure TableEntry where
  token : Token
  label : String
  distance : Nat

/-- The entry of a mention, if its name is local. -/
def Mention.entry? (m : Mention Place) : Option TableEntry :=
  match m.reference.link with
  | .outward distance => some ⟨m.reference.token, m.label, distance⟩
  | .global => none

/-- The table of a linked program, in tree order. -/
def localTable (statements : List (Stmt Place)) : List TableEntry :=
  (Stmt.mentionsBody statements).filterMap Mention.entry?

/-- A table in the order of the text. -/
def sortedByOffset (table : List TableEntry) : List TableEntry :=
  table.mergeSort fun a b => a.token.offset ≤ b.token.offset

end LoxInterpreter
