import LoxInterpreter.Parse.Statement
import LoxInterpreter.Proofs.Identity.Tree

/-!
# Parsing into numbered nodes

The parser once more, where every node gets a number when it is made. Numbers are given out in
order and never taken back, not even if the node is dropped later: if a mistake makes the statement
around it unreadable, or if it makes way for another node. A variable makes way for an assignment
and a property for the change of one, and what they store goes over to the new node.

Steps that make no node are those of the parser without numbers (`Build.lift`). Every other
procedure has the name of its counterpart there.
-/

namespace LoxInterpreter

/-- Where a parser stands, and how many nodes it has made. -/
structure Bench where
  cursor : Cursor
  made : Nat

/-- Parsers that yield an `α` and number the nodes that they make. -/
abbrev Build (α : Type) := EStateM Halt Bench α

namespace Build

open Parse (accept complain expect fail next? nextIs atEnd resume)

variable {α : Type}

/-- A step that makes no node. -/
def lift (p : Parse α) : Build α := fun s =>
  match p s.cursor with
  | .ok a cursor => .ok a { s with cursor }
  | .error halt cursor => .error halt { s with cursor }

/-- The number of a new node. -/
def number : Build Nat := fun s => .ok s.made { s with made := s.made + 1 }

/-- Consume the next token if the table has something for it, and go on as the table says. -/
def dispatch (otherwise : Build α) (table : Token → Option (Build α)) : Build α := fun s =>
  match s.cursor.rest with
  | [] => otherwise s
  | t :: rest =>
    match table t with
    | some p => p { s with cursor := { s.cursor with rest } }
    | none => otherwise s

/-- Catch the unwinding of a statement, and leave a gap in its place. What has been made of the
statement is dropped. -/
def recover (p : Build StmtNode) : Build StmtNode := fun s =>
  match p s with
  | .error .unwound s =>
    .ok .malformed { s with cursor := { s.cursor with rest := resume s.cursor.rest } }
  | result => result

/-! ### Expressions -/

section Levels

variable (nested : Build ExprNode)

/-- Arguments up to the closing parenthesis. -/
def arguments : Nat → Nat → Build (List ExprNode)
  | 0, _ => throw .stuck
  | bound + 1, count => do
    if maxArguments ≤ count then lift (complain (← lift next?) .tooManyArguments)
    let argument ← nested
    match ← lift (accept [.comma]) with
    | some _ => return argument :: (← arguments bound (count + 1))
    | none => return [argument]

/-- Names, literals, `this`, `super.name`, and expressions in parentheses. -/
def primary : Build ExprNode :=
  dispatch (lift (fail .noExpression)) fun t =>
    match t.kind with
    | .falseWord => some do return .literal (← number) (.bool false)
    | .trueWord => some do return .literal (← number) (.bool true)
    | .nilWord => some do return .literal (← number) .nil
    | .number | .string => some do return .literal (← number) (t.literal.getD .nil)
    | .superWord => some do
      let _ ← lift (expect .dot .superDot)
      let method ← lift (expect .identifier .superMethod)
      return .inherited ⟨← number, t⟩ method
    | .thisWord => some do return .this ⟨← number, t⟩
    | .identifier => some do return .reference ⟨← number, t⟩
    | .leftParen => some do
      let inner ← nested
      let _ ← lift (expect .rightParen .groupClose)
      return .grouping (← number) inner
    | _ => none

/-- The argument lists and property names that follow an expression. -/
def postfixes : Nat → ExprNode → Build ExprNode
  | 0, _ => throw .stuck
  | bound + 1, callee => do
    match ← lift (accept [.leftParen, .dot]) with
    | none => return callee
    | some t =>
      if t.kind = .leftParen then
        let values ←
          if ← lift (nextIs .rightParen) then pure [] else arguments nested (bound + 1) 0
        let paren ← lift (expect .rightParen .argumentsClose)
        postfixes bound (.call (← number) callee paren values)
      else
        let name ← lift (expect .identifier .propertyName)
        postfixes bound (.property (← number) callee name)

/-- Prefix operators, and primary expressions with what follows them. -/
def unary (bound : Nat) : Nat → Build ExprNode
  | 0 => throw .stuck
  | more + 1 => do
    match ← lift (accept [.bang, .minus]) with
    | some op =>
      let operand ← unary bound more
      return .unary (← number) op operand
    | none => postfixes nested bound (← primary nested)

end Levels

/-- What follows the first operand of a level of left-associative operators. -/
def operands (kinds : List TokenKind) (node : Nat → ExprNode → Token → ExprNode → ExprNode)
    (operand : Build ExprNode) : Nat → ExprNode → Build ExprNode
  | 0, _ => throw .stuck
  | bound + 1, left => do
    match ← lift (accept kinds) with
    | none => return left
    | some op =>
      let right ← operand
      operands kinds node operand bound (node (← number) left op right)

/-- A level of left-associative operators. -/
def leftAssociative (kinds : List TokenKind)
    (node : Nat → ExprNode → Token → ExprNode → ExprNode) (bound : Nat)
    (operand : Build ExprNode) : Build ExprNode := do
  operands kinds node operand bound (← operand)

section Levels

variable (nested : Build ExprNode) (bound : Nat)

/-- The levels of operators with two operands, from products to `or`. -/
def disjunction : Build ExprNode :=
  let factor := leftAssociative [.slash, .star] .binary bound (unary nested bound bound)
  let term := leftAssociative [.minus, .plus] .binary bound factor
  let comparison :=
    leftAssociative [.greater, .greaterEqual, .less, .lessEqual] .binary bound term
  let equality := leftAssociative [.bangEqual, .equalEqual] .binary bound comparison
  let conjunction := leftAssociative [.andWord] .logical bound equality
  leftAssociative [.orWord] .logical bound conjunction

/-- An assignment, or an expression of a tighter level. A variable and a property make way for a
new node; if anything else stands before the equals sign, the value is dropped. -/
def assignment : Build ExprNode := do
  let target ← disjunction nested bound
  match ← lift (accept [.equal]) with
  | none => return target
  | some equals =>
    let value ← nested
    match target with
    | .reference o => return .assign ⟨← number, o.token⟩ value
    | .property _ object name => return .setProperty (← number) object name value
    | _ =>
      lift (complain (some equals) .invalidTarget)
      return target

end Levels

/-- Expressions. -/
def expressionAt : Nat → Build ExprNode
  | 0 => throw .stuck
  | n + 1 => assignment (expressionAt n) (n + 1)

/-! ### Statements -/

/-- The parsers for the parts of a statement, and the bound for its loops. -/
structure Parts where
  expression : Build ExprNode
  statement : Build StmtNode
  declaration : Build StmtNode
  bound : Nat

/-- Declarations up to the end of the text or to a token of one of the kinds. -/
def declarations (declaration : Build StmtNode) (closing : List TokenKind) :
    Nat → Build (List StmtNode)
  | 0 => throw .stuck
  | bound + 1 => do
    match ← lift next? with
    | none => return []
    | some t =>
      if t.kind ∈ closing then return []
      else
        let first ← declaration
        return first :: (← declarations declaration closing bound)

/-- Parameters up to the closing parenthesis. -/
def parameters : Nat → Nat → Build (List Token)
  | 0, _ => throw .stuck
  | bound + 1, count => do
    if maxArguments ≤ count then lift (complain (← lift next?) .tooManyParams)
    let param ← lift (expect .identifier .paramName)
    match ← lift (accept [.comma]) with
    | some _ => return param :: (← parameters bound (count + 1))
    | none => return [param]

section Rules

variable (p : Parts)

/-- The statements of a block whose opening brace is behind. -/
def blockBody : Build (List StmtNode) := do
  let body ← declarations p.declaration [.rightBrace] p.bound
  let _ ← lift (expect .rightBrace .blockClose)
  return body

/-- A routine from its name on. -/
def routine (kind : RoutineKind) : Build RoutineNode := do
  let name ← lift (expect .identifier (.routineName kind))
  let _ ← lift (expect .leftParen (.paramsOpen kind))
  let params ← if ← lift (nextIs .rightParen) then pure [] else parameters p.bound 0
  let _ ← lift (expect .rightParen .paramsClose)
  let _ ← lift (expect .leftBrace (.bodyOpen kind))
  let body ← blockBody p
  return .mk (← number) name params body

/-- The methods of a class, up to the closing brace or the end of the text. -/
def methods : Nat → Build (List RoutineNode)
  | 0 => throw .stuck
  | bound + 1 => do
    if (← lift (nextIs .rightBrace)) || (← lift atEnd) then return []
    else
      let first ← routine p .method
      return first :: (← methods bound)

/-- A class from its name on. -/
def classDeclaration : Build StmtNode := do
  let name ← lift (expect .identifier .className)
  let superclass ← match ← lift (accept [.less]) with
    | some _ => do
      let token ← lift (expect .identifier .superclassName)
      pure (some ⟨← number, token⟩)
    | none => pure none
  let _ ← lift (expect .leftBrace .classOpen)
  let members ← methods p p.bound
  let _ ← lift (expect .rightBrace .classClose)
  return .klass (← number) name superclass members

/-- A variable declaration from its name on. -/
def variableDeclaration : Build StmtNode := do
  let name ← lift (expect .identifier .variableName)
  let initial ← match ← lift (accept [.equal]) with
    | some _ => some <$> p.expression
    | none => pure none
  let _ ← lift (expect .semicolon .declarationEnd)
  return .declare (← number) name initial

/-- An expression as a statement. -/
def expressionStatement : Build StmtNode := do
  let value ← p.expression
  let _ ← lift (expect .semicolon .expressionEnd)
  return .expression (← number) value

/-- An expression that may be left out before a token of the kind. -/
def optionalBefore (kind : TokenKind) : Build (Option ExprNode) := do
  if ← lift (nextIs kind) then return none else some <$> p.expression

/-- A `for` statement in terms of the other statements, with a new node for each of these. -/
def forLoop (initializer : Option StmtNode) (condition increment : Option ExprNode)
    (body : StmtNode) : Build StmtNode := do
  let body ← match increment with
    | some e => do
      let step := .expression (← number) e
      pure (.block (← number) [body, step])
    | none => pure body
  let condition ← match condition with
    | some e => pure e
    | none => do pure (.literal (← number) (.bool true))
  let loop := .loop (← number) condition body
  match initializer with
  | some s => return .block (← number) [s, loop]
  | none => return loop

/-- A `for` statement from its opening parenthesis on. -/
def forStatement : Build StmtNode := do
  let _ ← lift (expect .leftParen .forOpen)
  let initializer ← dispatch (some <$> expressionStatement p) fun t =>
    match t.kind with
    | .semicolon => some (return none)
    | .varWord => some (some <$> variableDeclaration p)
    | _ => none
  let condition ← optionalBefore p .semicolon
  let _ ← lift (expect .semicolon .forCondition)
  let increment ← optionalBefore p .rightParen
  let _ ← lift (expect .rightParen .forClose)
  forLoop initializer condition increment (← p.statement)

/-- An `if` statement from its opening parenthesis on. -/
def ifStatement : Build StmtNode := do
  let _ ← lift (expect .leftParen .ifOpen)
  let condition ← p.expression
  let _ ← lift (expect .rightParen .ifClose)
  let whenTrue ← p.statement
  let whenFalse ← match ← lift (accept [.elseWord]) with
    | some _ => some <$> p.statement
    | none => pure none
  return .branch (← number) condition whenTrue whenFalse

/-- A `print` statement from its value on. -/
def printStatement : Build StmtNode := do
  let value ← p.expression
  let _ ← lift (expect .semicolon .printEnd)
  return .print (← number) value

/-- A `return` statement from its value on. -/
def returnStatement (keyword : Token) : Build StmtNode := do
  let value ← optionalBefore p .semicolon
  let _ ← lift (expect .semicolon .returnEnd)
  return .giveBack (← number) keyword value

/-- A `while` statement from its opening parenthesis on. -/
def whileStatement : Build StmtNode := do
  let _ ← lift (expect .leftParen .whileOpen)
  let condition ← p.expression
  let _ ← lift (expect .rightParen .whileClose)
  let body ← p.statement
  return .loop (← number) condition body

/-- A block whose opening brace is behind. -/
def block : Build StmtNode := do
  let body ← blockBody p
  return .block (← number) body

/-- Statements that declare nothing. -/
def statement : Build StmtNode :=
  dispatch (expressionStatement p) fun t =>
    match t.kind with
    | .forWord => some (forStatement p)
    | .ifWord => some (ifStatement p)
    | .printWord => some (printStatement p)
    | .returnWord => some (returnStatement p t)
    | .whileWord => some (whileStatement p)
    | .leftBrace => some (block p)
    | _ => none

/-- Declarations and statements, with recovery from mistakes. -/
def declaration : Build StmtNode :=
  recover <| dispatch (statement p) fun t =>
    match t.kind with
    | .classWord => some (classDeclaration p)
    | .funWord => some (StmtNode.function <$> routine p .function)
    | .varWord => some (variableDeclaration p)
    | _ => none

end Rules

mutual

/-- Statements. -/
def statementAt : Nat → Build StmtNode
  | 0 => throw .stuck
  | n + 1 => statement ⟨expressionAt (n + 1), statementAt n, declarationAt n, n + 1⟩

/-- Declarations. -/
def declarationAt : Nat → Build StmtNode
  | 0 => throw .stuck
  | n + 1 => declaration ⟨expressionAt (n + 1), statementAt n, declarationAt n, n + 1⟩

end

end Build

/-- Parse a program into numbered nodes. -/
def buildProgram (tokens : List Token) : List StmtNode :=
  let bound := tokens.length + 1
  match Build.declarations (Build.declarationAt bound) [] bound ⟨⟨tokens, []⟩, 0⟩ with
  | .ok statements _ => statements
  | .error _ _ => []

end LoxInterpreter
