import LoxInterpreter.Tree
import LoxInterpreter.Spelling

/-!
# Trees as outlines

An outline lists the nodes of a tree in preorder, each with its depth, its label, and the places of
the tokens stored in it. The superclass in the head of a class counts as a node of its own.
-/

namespace LoxInterpreter

variable {ρ : Type}

/-- One line of an outline. -/
structure OutlineNode where
  depth : Nat
  label : String
  /-- Where the tokens stored in the node start in the text. -/
  offsets : List Nat
  deriving DecidableEq, Repr

/-- The label of a mention of a variable. -/
def Reference.label (r : Reference ρ) : String := "<ref:" ++ r.name ++ ">"

namespace Expr

/-- The label of a node. -/
def label : Expr ρ → String
  | .literal value => "<Literal " ++ value.debug ++ ">"
  | .grouping _ => "Grouping"
  | .unary _ _ => "Unary"
  | .binary _ _ _ => "Binary"
  | .logical _ _ _ => "Logical"
  | .reference target => target.label
  | .assign target _ => "<assign:" ++ target.name ++ ">"
  | .call _ _ _ => "Call"
  | .property _ _ => "Get"
  | .setProperty _ _ _ => "Set"
  | .this _ => "<this>"
  | .inherited _ method => "<super." ++ method.lexeme ++ ">"

/-- The tokens stored in a node. -/
def tokens : Expr ρ → List Token
  | .literal _ | .grouping _ => []
  | .unary op _ | .binary _ op _ | .logical _ op _ => [op]
  | .reference target | .assign target _ | .this target => [target.token]
  | .call _ paren _ => [paren]
  | .property _ name | .setProperty _ name _ => [name]
  | .inherited superclass method => [superclass.token, method]

mutual

/-- The nodes of an expression, which stands at the given depth. -/
def outline (depth : Nat) (e : Expr ρ) : List OutlineNode :=
  ⟨depth, e.label, e.tokens.map (·.offset)⟩ ::
    match e with
    | .literal _ | .reference _ | .this _ | .inherited _ _ => []
    | .grouping inner => inner.outline (depth + 1)
    | .unary _ operand => operand.outline (depth + 1)
    | .binary left _ right | .logical left _ right =>
      left.outline (depth + 1) ++ right.outline (depth + 1)
    | .assign _ value => value.outline (depth + 1)
    | .call callee _ values => callee.outline (depth + 1) ++ outlineAll (depth + 1) values
    | .property object _ => object.outline (depth + 1)
    | .setProperty object _ value => object.outline (depth + 1) ++ value.outline (depth + 1)

/-- The nodes of several expressions. -/
def outlineAll (depth : Nat) : List (Expr ρ) → List OutlineNode
  | [] => []
  | e :: rest => e.outline depth ++ outlineAll depth rest

end

end Expr

namespace Routine

/-- The label of a function or method. -/
def label (f : Routine ρ) : String :=
  "\x7bfun " ++ f.name.lexeme ++ "(" ++ ", ".intercalate (f.params.map (·.lexeme)) ++ ")\x7d"

/-- The tokens stored in a function or method. -/
def tokens (f : Routine ρ) : List Token := f.name :: f.params

end Routine

namespace Stmt

/-- The label of a node. -/
def label : Stmt ρ → String
  | .malformed => "None"
  | .expression _ => "Expression"
  | .print _ => "Print"
  | .declare name _ => "\x7bvar " ++ name.lexeme ++ "\x7d"
  | .block _ => "Block"
  | .branch _ _ _ => "If"
  | .loop _ _ => "While"
  | .function f => f.label
  | .giveBack _ _ => "Return"
  | .klass name _ _ => "\x7bclass " ++ name.lexeme ++ "\x7d"

/-- The tokens stored in a node. -/
def tokens : Stmt ρ → List Token
  | .declare name _ | .klass name _ _ => [name]
  | .function f => f.tokens
  | .giveBack keyword _ => [keyword]
  | _ => []

/-- The nodes of an expression that may be missing. -/
def outlineOptional (depth : Nat) : Option (Expr ρ) → List OutlineNode
  | none => []
  | some e => e.outline depth

mutual

/-- The nodes of a statement, which stands at the given depth. -/
def outline (depth : Nat) (s : Stmt ρ) : List OutlineNode :=
  ⟨depth, s.label, s.tokens.map (·.offset)⟩ ::
    match s with
    | .malformed => []
    | .expression value | .print value => value.outline (depth + 1)
    | .declare _ initial => outlineOptional (depth + 1) initial
    | .block body => outlineNested (depth + 1) body
    | .branch condition whenTrue none =>
      condition.outline (depth + 1) ++ whenTrue.outline (depth + 1)
    | .branch condition whenTrue (some whenFalse) =>
      condition.outline (depth + 1) ++ whenTrue.outline (depth + 1) ++
        whenFalse.outline (depth + 1)
    | .loop condition body => condition.outline (depth + 1) ++ body.outline (depth + 1)
    | .function (.mk _ _ body) => outlineNested (depth + 1) body
    | .giveBack _ value => outlineOptional (depth + 1) value
    | .klass _ superclass methods =>
      (match superclass with
        | some target => [⟨depth + 1, target.label, [target.token.offset]⟩]
        | none => []) ++ outlineRoutines (depth + 1) methods

/-- The nodes of the statements in a body. Those that could not be parsed are left out. -/
def outlineNested (depth : Nat) : List (Stmt ρ) → List OutlineNode
  | [] => []
  | .malformed :: rest => outlineNested depth rest
  | s :: rest => s.outline depth ++ outlineNested depth rest

/-- The nodes of the methods of a class. -/
def outlineRoutines (depth : Nat) : List (Routine ρ) → List OutlineNode
  | [] => []
  | .mk name params body :: rest =>
    ⟨depth, (Routine.mk name params body).label, (name :: params).map (·.offset)⟩ ::
      outlineNested (depth + 1) body ++ outlineRoutines depth rest

end

/-- The outline of a program. -/
def outlineProgram (statements : List (Stmt ρ)) : List OutlineNode :=
  statements.flatMap (outline 0)

end Stmt

end LoxInterpreter
