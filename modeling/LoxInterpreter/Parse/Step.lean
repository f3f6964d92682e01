import LoxInterpreter.Tree

/-!
# Steps of a parser

A parser walks over the tokens that are left, writes down the mistakes that it meets, and either
goes on with a value or unwinds to the statement boundary where `recover` waits for it. The end of
the text is the empty list of tokens; a mistake there has no token to blame.

* `SyntaxError` enumerates the mistakes, `SyntaxError.message` words them.
* `dispatch`, `accept` and `expect` are the only steps that consume tokens, apart from `recover`.
* `resume` says where parsing goes on after a mistake; it always gets ahead (`resume_cons_suffix`).

Recursion is bounded by a number that always exceeds the number of tokens left. A parser that ran
out of it would be `Halt.stuck`.
-/

namespace LoxInterpreter

/-- A routine is declared as a function or as a method. -/
inductive RoutineKind where
  | function
  | method
  deriving DecidableEq, Repr

/-- The word for a kind of routine. -/
def RoutineKind.noun : RoutineKind → String
  | function => "function"
  | method => "method"

/-- What the parser can find wrong. -/
inductive SyntaxError where
  | className | superclassName | classOpen | classClose
  | routineName (kind : RoutineKind)
  | paramsOpen (kind : RoutineKind)
  | tooManyParams | paramName | paramsClose
  | bodyOpen (kind : RoutineKind)
  | variableName | declarationEnd
  | forOpen | forCondition | forClose
  | ifOpen | ifClose
  | printEnd | returnEnd
  | whileOpen | whileClose
  | blockClose | expressionEnd
  | invalidTarget
  | propertyName
  | tooManyArguments | argumentsClose
  | superDot | superMethod
  | groupClose
  | noExpression
  deriving DecidableEq, Repr

/-- The greatest number of parameters and of arguments. -/
def maxArguments : Nat := 255

/-- The wording of a syntax error. -/
def SyntaxError.message : SyntaxError → String
  | className => "Expect class name."
  | superclassName => "Expect superclass name."
  | classOpen => "Expect '\x7b' before class body."
  | classClose => "Expect '\x7d' after class body."
  | routineName kind => "Expect " ++ kind.noun ++ " name."
  | paramsOpen kind => "Expect '(' after " ++ kind.noun ++ " name."
  | tooManyParams => "Can't have more than " ++ toString maxArguments ++ " parameters."
  | paramName => "Expect parameter name."
  | paramsClose => "Expect ')' after parameters."
  | bodyOpen kind => "Expect '\x7b' before " ++ kind.noun ++ " body."
  | variableName => "Expect variable name."
  | declarationEnd => "Expect ';' after variable declaration."
  | forOpen => "Expect '(' after 'for'."
  | forCondition => "Expect ';' after loop condition."
  | forClose => "Expect ')' after for clauses."
  | ifOpen => "Expect '(' after 'if'."
  | ifClose => "Expect ')' after if condition."
  | printEnd => "Expect ';' after value."
  | returnEnd => "Expect ';' after return value."
  | whileOpen => "Expect '(' after 'while'."
  | whileClose => "Expect ')' after condition."
  | blockClose => "Expect '\x7d' after block."
  | expressionEnd => "Expect ';' after expression."
  | invalidTarget => "Invalid assignment target."
  | propertyName => "Expect property name after '.'."
  | tooManyArguments => "Can't have more than " ++ toString maxArguments ++ " arguments."
  | argumentsClose => "Expect ')' after arguments."
  | superDot => "Expect '.' after 'super'."
  | superMethod => "Expect superclass method name."
  | groupClose => "Expect ')' after expression."
  | noExpression => "Expect expression."

/-- A syntax error and the token to blame, none at the end of the text. -/
structure SyntaxMistake where
  token : Option Token
  cause : SyntaxError
  deriving DecidableEq

/-- Where a parser stands: the tokens left, and the mistakes so far. -/
structure Cursor where
  rest : List Token
  mistakes : List SyntaxMistake
  deriving DecidableEq

/-- Why a parser did not go on. -/
inductive Halt where
  /-- A mistake was written down that makes the current statement unreadable. -/
  | unwound
  /-- The bound on recursion was too small. -/
  | stuck
  deriving DecidableEq, Repr

/-- Parsers that yield an `α`. The cursor survives an early end. -/
abbrev Parse (α : Type) := EStateM Halt Cursor α

namespace Parse

variable {α : Type}

/-- The token that comes next, which stays where it is. -/
def next? : Parse (Option Token) := do
  return (← get).rest.head?

/-- Write down a mistake and go on. -/
def complain (token : Option Token) (cause : SyntaxError) : Parse Unit :=
  modify fun s => { s with mistakes := s.mistakes ++ [⟨token, cause⟩] }

/-- Write down a mistake, blamed on the token that comes next, and unwind. -/
def fail (cause : SyntaxError) : Parse α := do
  complain (← next?) cause
  throw .unwound

/-- Consume the next token if the table has something for it, and go on as the table says. -/
def dispatch (otherwise : Parse α) (table : Token → Option (Parse α)) : Parse α := fun s =>
  match s.rest with
  | [] => otherwise s
  | t :: rest =>
    match table t with
    | some p => p { s with rest }
    | none => otherwise s

/-- Consume the next token if it is of one of the kinds. -/
def accept (kinds : List TokenKind) : Parse (Option Token) :=
  dispatch (return none) fun t => if t.kind ∈ kinds then some (return some t) else none

/-- Consume the next token, which has to be of the kind. -/
def expect (kind : TokenKind) (cause : SyntaxError) : Parse Token :=
  dispatch (fail cause) fun t => if t.kind = kind then some (return t) else none

/-- The next token is of the kind. -/
def nextIs (kind : TokenKind) : Parse Bool := do
  return (← next?).any (·.kind = kind)

/-- Every token has been consumed. -/
def atEnd : Parse Bool := do
  return (← next?).isNone

/-- These words begin a statement, whatever comes before them. -/
def beginsStatement (k : TokenKind) : Bool :=
  k ∈ [.classWord, .funWord, .varWord, .forWord, .ifWord, .whileWord, .printWord, .returnWord]

/-- Skip to a place behind a semicolon or before a word that begins a statement; `last` is the
token just skipped. -/
def resumeAfter (last : Token) : List Token → List Token
  | [] => []
  | t :: rest =>
    if last.kind = .semicolon ∨ beginsStatement t.kind then t :: rest else resumeAfter t rest

/-- Where parsing goes on after a mistake: one token is always skipped. -/
def resume : List Token → List Token
  | [] => []
  | t :: rest => resumeAfter t rest

/-- Resuming drops tokens from the front and nothing else. -/
theorem resumeAfter_suffix (last : Token) (tokens : List Token) :
    resumeAfter last tokens <:+ tokens := by
  induction tokens generalizing last with
  | nil => exact List.suffix_refl _
  | cons t rest ih =>
    unfold resumeAfter
    split
    · exact List.suffix_refl _
    · exact (ih t).trans (List.suffix_cons t rest)

/-- **Progress.** Where a token is left, resuming drops it. -/
theorem resume_cons_suffix (t : Token) (rest : List Token) : resume (t :: rest) <:+ rest :=
  resumeAfter_suffix t rest

/-- Catch the unwinding of a statement, leave a gap in its place, and skip to where the next one
may begin. -/
def recover (p : Parse (Stmt Blank)) : Parse (Stmt Blank) := fun s =>
  match p s with
  | .error .unwound s => .ok .malformed { s with rest := resume s.rest }
  | result => result

end Parse

end LoxInterpreter
