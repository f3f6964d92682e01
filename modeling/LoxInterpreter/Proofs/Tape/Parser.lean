import LoxInterpreter.Check

/-!
# Parsing from a tape

The parser once more, over a tape of tokens that stays as it is while a head moves along it. The
last token on the tape stands for the end of the text. Mistakes go to a report as soon as they are
found, and the report may give up in the midst of parsing.

What can go wrong on a tape can go wrong here: the head may be asked for a token beyond the last one
(`Stop.offTape`), and the token behind the head may be asked for where there is none, which yields
the last token of the tape. The head keeps a log, so that what it did in a run can be talked about.

* `Head.Orderly` says that nothing improper is in the log.
* `Tape.parse` reads a whole tape. Every procedure has the name of its counterpart among the parsers
  that walk over a list.
-/

namespace LoxInterpreter.Tape

open Parse (beginsStatement forLoop)

/-- What is written down in the log of a head. -/
inductive Entry where
  /-- The head moved on, and stands at the position. -/
  | moved (position : Nat)
  /-- The token behind the head, which stands at the position, was asked for. -/
  | consulted (position : Nat)
  /-- A loop over declarations or methods got through a pass. -/
  | passed (before after : Nat)
  deriving DecidableEq, Repr

/-- Where the head stood when the entry was made. -/
def Entry.position : Entry → Nat
  | moved position | consulted position => position
  | passed _ after => after

/-- The entry is as it should be, on a tape whose last token is at `last`: the head does not move
beyond that token, nothing is asked for in front of the tape, and every pass gets ahead. -/
def Entry.Proper (last : Nat) : Entry → Prop
  | moved position => position ≤ last
  | consulted position => 0 < position
  | passed before after => before < after

/-- A tape with its head. -/
structure Head where
  tokens : List Token
  position : Nat
  report : Report
  /-- What the head did, latest first. -/
  log : List Entry

/-- Every entry in the log is proper, and the head never moved back. -/
structure Head.Orderly (last : Nat) (s : Head) : Prop where
  proper : ∀ e ∈ s.log, e.Proper last
  forward : (s.position :: s.log.map Entry.position).Pairwise (· ≥ ·)

/-- Why a parser on a tape did not go on. -/
inductive Stop where
  /-- A mistake was reported that makes the current statement unreadable. -/
  | unwound
  /-- The report gave up. -/
  | givingUp (reason : GivingUp)
  /-- The head was asked for a token that is not on the tape. -/
  | offTape
  /-- The bound on recursion was too small. -/
  | stuck
  deriving DecidableEq, Repr

/-- Parsers on a tape that yield an `α`. -/
abbrev Reader (α : Type) := EStateM Stop Head α

variable {α : Type}

/-! ### Steps -/

/-- Write down what happens. -/
def note (e : Entry) : Reader Unit :=
  modify fun s => { s with log := e :: s.log }

/-- The token at a place on the tape. -/
def tokenAt (i : Nat) : Reader Token := fun s =>
  match s.tokens[i]? with
  | some t => .ok t s
  | none => .error .offTape s

/-- The token at the head. -/
def peek : Reader Token := do
  tokenAt (← get).position

/-- The token behind the head. The index in front of the tape means the last token. -/
def previous : Reader Token := do
  let s ← get
  note (.consulted s.position)
  tokenAt (if s.position = 0 then s.tokens.length - 1 else s.position - 1)

/-- The head is at the end of the text. -/
def atEnd : Reader Bool := do
  return (← peek).kind = .endOfText

/-- The token at the head is of the kind. The end of the text is of no kind. -/
def check (kind : TokenKind) : Reader Bool := do
  if ← atEnd then return false
  else return (← peek).kind = kind

/-- Move on, unless at the end of the text, and look back. -/
def advance : Reader Token := do
  if !(← atEnd) then
    modify fun s => { s with position := s.position + 1, log := .moved (s.position + 1) :: s.log }
  previous

/-- Report a mistake. -/
def error (token : Token) (cause : SyntaxError) : Reader Unit := fun s =>
  match Reporting.error token cause.message s.report with
  | .ok _ report => .ok () { s with report }
  | .error reason report => .error (.givingUp reason) { s with report }

/-- Report a mistake, blamed on the token at the head, and unwind. -/
def raise (cause : SyntaxError) : Reader α := do
  error (← peek) cause
  throw .unwound

/-- Consume the token at the head if it is of one of the kinds. -/
def accept : List TokenKind → Reader Bool
  | [] => return false
  | kind :: kinds => do
    if ← check kind then
      let _ ← advance
      return true
    else accept kinds

/-- Consume the token at the head, which has to be of the kind. -/
def consume (kind : TokenKind) (cause : SyntaxError) : Reader Token := do
  if ← check kind then advance else raise cause

/-- Try one alternative after the other: consume a token of one of its kinds, and go on. -/
def choose (other : Reader α) : List (List TokenKind × Reader α) → Reader α
  | [] => other
  | (kinds, action) :: more => do
    if ← accept kinds then action else choose other more

/-- Move on to a place behind a semicolon or to a word that begins a statement. -/
def skip : Nat → Reader Unit
  | 0 => throw .stuck
  | n + 1 => do
    if ← atEnd then return
    else if (← previous).kind = .semicolon then return
    else if beginsStatement (← peek).kind then return
    else
      let _ ← advance
      skip n

/-- Move on to where parsing goes on after a mistake. -/
def synchronize : Reader Unit := do
  let _ ← advance
  skip (← get).tokens.length

/-- Catch the unwinding of a statement, and leave a gap in its place. -/
def recover (p : Reader (Stmt Blank)) : Reader (Stmt Blank) := fun s =>
  match p s with
  | .error .unwound s => (synchronize >>= fun _ => pure .malformed : Reader (Stmt Blank)) s
  | result => result

/-- Read items until it is time to end. -/
def passes (done : Reader Bool) (item : Reader α) : Nat → Reader (List α)
  | 0 => throw .stuck
  | bound + 1 => do
    if ← done then return []
    else
      let before := (← get).position
      let first ← item
      note (.passed before (← get).position)
      return first :: (← passes done item bound)

/-! ### Expressions -/

section Levels

variable (nested : Reader (Expr Blank))

/-- Arguments up to the closing parenthesis. -/
def arguments : Nat → Nat → Reader (List (Expr Blank))
  | 0, _ => throw .stuck
  | bound + 1, count => do
    if maxArguments ≤ count then error (← peek) .tooManyArguments
    let argument ← nested
    if ← accept [.comma] then return argument :: (← arguments bound (count + 1))
    else return [argument]

/-- Names, literals, `this`, `super.name`, and expressions in parentheses. -/
def primary : Reader (Expr Blank) :=
  choose (raise .noExpression)
    [([.falseWord], return .literal (.bool false)),
      ([.trueWord], return .literal (.bool true)),
      ([.nilWord], return .literal .nil),
      ([.number, .string], return .literal ((← previous).literal.getD .nil)),
      ([.superWord], do
        let keyword ← previous
        let _ ← consume .dot .superDot
        let method ← consume .identifier .superMethod
        return .inherited ⟨keyword, ()⟩ method),
      ([.thisWord], return .this ⟨← previous, ()⟩),
      ([.identifier], return .reference ⟨← previous, ()⟩),
      ([.leftParen], do
        let inner ← nested
        let _ ← consume .rightParen .groupClose
        return .grouping inner)]

/-- The argument lists and property names that follow an expression. -/
def postfixes : Nat → Expr Blank → Reader (Expr Blank)
  | 0, _ => throw .stuck
  | bound + 1, callee =>
    choose (return callee)
      [([.leftParen], do
        let values ← if ← check .rightParen then pure [] else arguments nested (bound + 1) 0
        let paren ← consume .rightParen .argumentsClose
        postfixes bound (.call callee paren values)),
      ([.dot], do
        let name ← consume .identifier .propertyName
        postfixes bound (.property callee name))]

/-- Prefix operators. -/
def unary (bound : Nat) : Nat → Reader (Expr Blank)
  | 0 => throw .stuck
  | more + 1 => do
    if ← accept [.bang, .minus] then
      let op ← previous
      return .unary op (← unary bound more)
    else postfixes nested bound (← primary nested)

end Levels

/-- What follows the first operand of a level of left-associative operators. -/
def operands (kinds : List TokenKind) (node : Expr Blank → Token → Expr Blank → Expr Blank)
    (operand : Reader (Expr Blank)) : Nat → Expr Blank → Reader (Expr Blank)
  | 0, _ => throw .stuck
  | bound + 1, left => do
    if ← accept kinds then
      let op ← previous
      operands kinds node operand bound (node left op (← operand))
    else return left

/-- A level of left-associative operators. -/
def leftAssociative (kinds : List TokenKind)
    (node : Expr Blank → Token → Expr Blank → Expr Blank) (bound : Nat)
    (operand : Reader (Expr Blank)) : Reader (Expr Blank) := do
  operands kinds node operand bound (← operand)

section Levels

variable (nested : Reader (Expr Blank)) (bound : Nat)

/-- The levels of operators with two operands, from products to `or`. -/
def disjunction : Reader (Expr Blank) :=
  let factor := leftAssociative [.slash, .star] .binary bound (unary nested bound bound)
  let term := leftAssociative [.minus, .plus] .binary bound factor
  let comparison :=
    leftAssociative [.greater, .greaterEqual, .less, .lessEqual] .binary bound term
  let equality := leftAssociative [.bangEqual, .equalEqual] .binary bound comparison
  let conjunction := leftAssociative [.andWord] .logical bound equality
  leftAssociative [.orWord] .logical bound conjunction

/-- An assignment, or an expression of a tighter level. -/
def assignment : Reader (Expr Blank) := do
  let target ← disjunction nested bound
  if ← accept [.equal] then
    let equals ← previous
    let value ← nested
    match target with
    | .reference r => return .assign r value
    | .property object name => return .setProperty object name value
    | _ =>
      error equals .invalidTarget
      return target
  else return target

end Levels

/-- Expressions. -/
def expressionAt : Nat → Reader (Expr Blank)
  | 0 => throw .stuck
  | n + 1 => assignment (expressionAt n) (n + 1)

/-! ### Statements -/

/-- The parsers for the parts of a statement, and the bound for its loops. -/
structure Parts where
  expression : Reader (Expr Blank)
  statement : Reader (Stmt Blank)
  declaration : Reader (Stmt Blank)
  bound : Nat

/-- Parameters up to the closing parenthesis. -/
def parameters : Nat → Nat → Reader (List Token)
  | 0, _ => throw .stuck
  | bound + 1, count => do
    if maxArguments ≤ count then error (← peek) .tooManyParams
    let param ← consume .identifier .paramName
    if ← accept [.comma] then return param :: (← parameters bound (count + 1))
    else return [param]

/-- A closing brace or the end of the text is next. -/
def closes : Reader Bool := do
  if ← check .rightBrace then return true else atEnd

section Rules

variable (p : Parts)

/-- The statements of a block whose opening brace is behind. -/
def blockBody : Reader (List (Stmt Blank)) := do
  let body ← passes closes p.declaration p.bound
  let _ ← consume .rightBrace .blockClose
  return body

/-- A routine from its name on. -/
def routine (kind : RoutineKind) : Reader (Routine Blank) := do
  let name ← consume .identifier (.routineName kind)
  let _ ← consume .leftParen (.paramsOpen kind)
  let params ← if ← check .rightParen then pure [] else parameters p.bound 0
  let _ ← consume .rightParen .paramsClose
  let _ ← consume .leftBrace (.bodyOpen kind)
  return .mk name params (← blockBody p)

/-- A class from its name on. -/
def classDeclaration : Reader (Stmt Blank) := do
  let name ← consume .identifier .className
  let superclass ←
    if ← accept [.less] then do
      let _ ← consume .identifier .superclassName
      pure (some ⟨← previous, ()⟩)
    else pure none
  let _ ← consume .leftBrace .classOpen
  let members ← passes closes (routine p .method) p.bound
  let _ ← consume .rightBrace .classClose
  return .klass name superclass members

/-- A variable declaration from its name on. -/
def variableDeclaration : Reader (Stmt Blank) := do
  let name ← consume .identifier .variableName
  let initial ← if ← accept [.equal] then some <$> p.expression else pure none
  let _ ← consume .semicolon .declarationEnd
  return .declare name initial

/-- An expression as a statement. -/
def expressionStatement : Reader (Stmt Blank) := do
  let value ← p.expression
  let _ ← consume .semicolon .expressionEnd
  return .expression value

/-- An expression that may be left out before a token of the kind. -/
def optionalBefore (kind : TokenKind) : Reader (Option (Expr Blank)) := do
  if ← check kind then return none else some <$> p.expression

/-- A `for` statement from its opening parenthesis on. -/
def forStatement : Reader (Stmt Blank) := do
  let _ ← consume .leftParen .forOpen
  let initializer ← choose (some <$> expressionStatement p)
    [([.semicolon], return none), ([.varWord], some <$> variableDeclaration p)]
  let condition ← optionalBefore p .semicolon
  let _ ← consume .semicolon .forCondition
  let increment ← optionalBefore p .rightParen
  let _ ← consume .rightParen .forClose
  return forLoop initializer condition increment (← p.statement)

/-- An `if` statement from its opening parenthesis on. -/
def ifStatement : Reader (Stmt Blank) := do
  let _ ← consume .leftParen .ifOpen
  let condition ← p.expression
  let _ ← consume .rightParen .ifClose
  let whenTrue ← p.statement
  let whenFalse ← if ← accept [.elseWord] then some <$> p.statement else pure none
  return .branch condition whenTrue whenFalse

/-- A `print` statement from its value on. -/
def printStatement : Reader (Stmt Blank) := do
  let value ← p.expression
  let _ ← consume .semicolon .printEnd
  return .print value

/-- A `return` statement from its value on. -/
def returnStatement : Reader (Stmt Blank) := do
  let keyword ← previous
  let value ← optionalBefore p .semicolon
  let _ ← consume .semicolon .returnEnd
  return .giveBack keyword value

/-- A `while` statement from its opening parenthesis on. -/
def whileStatement : Reader (Stmt Blank) := do
  let _ ← consume .leftParen .whileOpen
  let condition ← p.expression
  let _ ← consume .rightParen .whileClose
  return .loop condition (← p.statement)

/-- Statements that declare nothing. -/
def statement : Reader (Stmt Blank) :=
  choose (expressionStatement p)
    [([.forWord], forStatement p), ([.ifWord], ifStatement p), ([.printWord], printStatement p),
      ([.returnWord], returnStatement p), ([.whileWord], whileStatement p),
      ([.leftBrace], Stmt.block <$> blockBody p)]

/-- Declarations and statements, with recovery from mistakes. -/
def declaration : Reader (Stmt Blank) :=
  recover <| choose (statement p)
    [([.classWord], classDeclaration p), ([.funWord], Stmt.function <$> routine p .function),
      ([.varWord], variableDeclaration p)]

end Rules

mutual

/-- Statements. -/
def statementAt : Nat → Reader (Stmt Blank)
  | 0 => throw .stuck
  | n + 1 => statement ⟨expressionAt (n + 1), statementAt n, declarationAt n, n + 1⟩

/-- Declarations. -/
def declarationAt : Nat → Reader (Stmt Blank)
  | 0 => throw .stuck
  | n + 1 => declaration ⟨expressionAt (n + 1), statementAt n, declarationAt n, n + 1⟩

end

/-- Parse what is on a tape, from its first token on. No parser recurs more often than there are
tokens on the tape. -/
def parse (tokens : List Token) (report : Report) :
    EStateM.Result Stop Head (List (Stmt Blank)) :=
  passes atEnd (declarationAt tokens.length) tokens.length ⟨tokens, 0, report, []⟩

end LoxInterpreter.Tape
