import LoxInterpreter.Parse.Expression

/-!
# Parsing statements

The parsers of statements and declarations take the parsers of their parts as parameters (`Parts`);
`statementAt` and `declarationAt` tie the knot, and `parse` reads a whole program.

Only a declaration recovers from a mistake. Branches and loop bodies are statements, never
declarations, so that every declaration stands in a list.
-/

namespace LoxInterpreter.Parse

/-- The parsers for the parts of a statement, and the bound for its loops. -/
structure Parts where
  expression : Parse (Expr Blank)
  statement : Parse (Stmt Blank)
  declaration : Parse (Stmt Blank)
  bound : Nat

/-- Declarations up to the end of the text or to a token of one of the kinds. -/
def declarations (declaration : Parse (Stmt Blank)) (closing : List TokenKind) :
    Nat → Parse (List (Stmt Blank))
  | 0 => throw .stuck
  | bound + 1 => do
    match ← next? with
    | none => return []
    | some t =>
      if t.kind ∈ closing then return []
      else
        let first ← declaration
        return first :: (← declarations declaration closing bound)

/-- Parameters up to the closing parenthesis, which is left where it is. `count` parameters came
before. -/
def parameters : Nat → Nat → Parse (List Token)
  | 0, _ => throw .stuck
  | bound + 1, count => do
    if maxArguments ≤ count then complain (← next?) .tooManyParams
    let param ← expect .identifier .paramName
    match ← accept [.comma] with
    | some _ => return param :: (← parameters bound (count + 1))
    | none => return [param]

section Rules

variable (p : Parts)

/-- The statements of a block whose opening brace is behind. -/
def blockBody : Parse (List (Stmt Blank)) := do
  let body ← declarations p.declaration [.rightBrace] p.bound
  let _ ← expect .rightBrace .blockClose
  return body

/-- A routine from its name on. -/
def routine (kind : RoutineKind) : Parse (Routine Blank) := do
  let name ← expect .identifier (.routineName kind)
  let _ ← expect .leftParen (.paramsOpen kind)
  let params ← if ← nextIs .rightParen then pure [] else parameters p.bound 0
  let _ ← expect .rightParen .paramsClose
  let _ ← expect .leftBrace (.bodyOpen kind)
  return .mk name params (← blockBody p)

/-- The methods of a class, up to the closing brace or the end of the text. -/
def methods : Nat → Parse (List (Routine Blank))
  | 0 => throw .stuck
  | bound + 1 => do
    if (← nextIs .rightBrace) || (← atEnd) then return []
    else
      let first ← routine p .method
      return first :: (← methods bound)

/-- A class from its name on. -/
def classDeclaration : Parse (Stmt Blank) := do
  let name ← expect .identifier .className
  let superclass ← match ← accept [.less] with
    | some _ => do
      let token ← expect .identifier .superclassName
      pure (some ⟨token, ()⟩)
    | none => pure none
  let _ ← expect .leftBrace .classOpen
  let members ← methods p p.bound
  let _ ← expect .rightBrace .classClose
  return .klass name superclass members

/-- A variable declaration from its name on. -/
def variableDeclaration : Parse (Stmt Blank) := do
  let name ← expect .identifier .variableName
  let initial ← match ← accept [.equal] with
    | some _ => some <$> p.expression
    | none => pure none
  let _ ← expect .semicolon .declarationEnd
  return .declare name initial

/-- An expression as a statement. -/
def expressionStatement : Parse (Stmt Blank) := do
  let value ← p.expression
  let _ ← expect .semicolon .expressionEnd
  return .expression value

/-- An expression that may be left out before a token of the kind. -/
def optionalBefore (kind : TokenKind) : Parse (Option (Expr Blank)) := do
  if ← nextIs kind then return none else some <$> p.expression

/-- A `for` statement in terms of the other statements: the increment comes after the body in a
block, a missing condition is `true`, and a block around all holds the initializer. -/
def forLoop (initializer : Option (Stmt Blank)) (condition increment : Option (Expr Blank))
    (body : Stmt Blank) : Stmt Blank :=
  let body := match increment with
    | some e => .block [body, .expression e]
    | none => body
  let loop := .loop (condition.getD (.literal (.bool true))) body
  match initializer with
  | some s => .block [s, loop]
  | none => loop

/-- A `for` statement from its opening parenthesis on. -/
def forStatement : Parse (Stmt Blank) := do
  let _ ← expect .leftParen .forOpen
  let initializer ← dispatch (some <$> expressionStatement p) fun t =>
    match t.kind with
    | .semicolon => some (return none)
    | .varWord => some (some <$> variableDeclaration p)
    | _ => none
  let condition ← optionalBefore p .semicolon
  let _ ← expect .semicolon .forCondition
  let increment ← optionalBefore p .rightParen
  let _ ← expect .rightParen .forClose
  return forLoop initializer condition increment (← p.statement)

/-- An `if` statement from its opening parenthesis on. An `else` belongs to the nearest `if`. -/
def ifStatement : Parse (Stmt Blank) := do
  let _ ← expect .leftParen .ifOpen
  let condition ← p.expression
  let _ ← expect .rightParen .ifClose
  let whenTrue ← p.statement
  let whenFalse ← match ← accept [.elseWord] with
    | some _ => some <$> p.statement
    | none => pure none
  return .branch condition whenTrue whenFalse

/-- A `print` statement from its value on. -/
def printStatement : Parse (Stmt Blank) := do
  let value ← p.expression
  let _ ← expect .semicolon .printEnd
  return .print value

/-- A `return` statement from its value on. -/
def returnStatement (keyword : Token) : Parse (Stmt Blank) := do
  let value ← optionalBefore p .semicolon
  let _ ← expect .semicolon .returnEnd
  return .giveBack keyword value

/-- A `while` statement from its opening parenthesis on. -/
def whileStatement : Parse (Stmt Blank) := do
  let _ ← expect .leftParen .whileOpen
  let condition ← p.expression
  let _ ← expect .rightParen .whileClose
  return .loop condition (← p.statement)

/-- Statements that declare nothing. -/
def statement : Parse (Stmt Blank) :=
  dispatch (expressionStatement p) fun t =>
    match t.kind with
    | .forWord => some (forStatement p)
    | .ifWord => some (ifStatement p)
    | .printWord => some (printStatement p)
    | .returnWord => some (returnStatement p t)
    | .whileWord => some (whileStatement p)
    | .leftBrace => some (Stmt.block <$> blockBody p)
    | _ => none

/-- Declarations and statements, with recovery from mistakes. -/
def declaration : Parse (Stmt Blank) :=
  recover <| dispatch (statement p) fun t =>
    match t.kind with
    | .classWord => some (classDeclaration p)
    | .funWord => some (Stmt.function <$> routine p .function)
    | .varWord => some (variableDeclaration p)
    | _ => none

end Rules

mutual

/-- Statements. The bound has to exceed the number of tokens left. -/
def statementAt : Nat → Parse (Stmt Blank)
  | 0 => throw .stuck
  | n + 1 => statement ⟨expressionAt (n + 1), statementAt n, declarationAt n, n + 1⟩

/-- Declarations. The bound has to exceed the number of tokens left. -/
def declarationAt : Nat → Parse (Stmt Blank)
  | 0 => throw .stuck
  | n + 1 => declaration ⟨expressionAt (n + 1), statementAt n, declarationAt n, n + 1⟩

end

/-- The declarations of a program, up to the end of the text. -/
def program (bound : Nat) : Parse (List (Stmt Blank)) :=
  declarations (declarationAt bound) [] bound

end LoxInterpreter.Parse

namespace LoxInterpreter

/-- What parsing yields: the statements in order, and the mistakes in the order of discovery. -/
structure Parsed where
  statements : List (Stmt Blank)
  mistakes : List SyntaxMistake

/-- Parse a program. The tokens do not include the one that stands for the end of the text. -/
def parse (tokens : List Token) : Parsed :=
  match Parse.program (tokens.length + 1) ⟨tokens, []⟩ with
  | .ok statements s => ⟨statements, s.mistakes⟩
  | .error _ s => ⟨[], s.mistakes⟩

end LoxInterpreter
