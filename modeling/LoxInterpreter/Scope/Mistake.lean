import LoxInterpreter.Scope.Link

/-!
# Mistakes of scope

What scope analysis finds wrong with a program that parses. `Stmt.scopeMistakes` lists the mistakes
of a statement in the order in which its parts are visited, which is the order of the text but for
the assignment to a property, whose value comes before its object.
-/

namespace LoxInterpreter

/-- What can be wrong with the use of names and keywords. -/
inductive ScopeError where
  | alreadyDeclared
  | ownInitializer
  | returnAtTopLevel
  | valueFromInitializer
  | selfInheritance
  | thisOutsideClass
  | superOutsideClass
  | superWithoutSuperclass
  deriving DecidableEq, Repr

/-- The wording of a scope error. -/
def ScopeError.message : ScopeError → String
  | alreadyDeclared => "Already a variable with this name in this scope."
  | ownInitializer => "Can't read local variable in its own initializer."
  | returnAtTopLevel => "Can't return from top-level code."
  | valueFromInitializer => "Can't return a value from an initializer."
  | selfInheritance => "A class can't inherit from itself."
  | thisOutsideClass => "Can't use 'this' outside of a class."
  | superOutsideClass => "Can't use 'super' outside of a class."
  | superWithoutSuperclass => "Can't use 'super' in a class with no superclass."

/-- A scope error and the token to blame. -/
structure ScopeMistake where
  token : Token
  cause : ScopeError
  deriving DecidableEq

/-- The innermost routine around a place. -/
inductive Enclosing where
  | topLevel
  | function
  | initializer
  | method
  deriving DecidableEq, Repr

/-- The innermost class around a place. -/
inductive ClassKind where
  | outside
  | base
  | derived
  deriving DecidableEq, Repr

/-- The name of the method that sets up new instances. -/
def initializerName : String := "init"

/-- What a place in a program has around it. -/
structure Surroundings where
  scopes : Scopes
  routine : Enclosing
  classKind : ClassKind

namespace Surroundings

/-- Outside everything. -/
def topLevel : Surroundings := ⟨[], .topLevel, .outside⟩

/-- In a block. -/
def inBlock (c : Surroundings) : Surroundings := { c with scopes := [] :: c.scopes }

/-- In a function or method with these parameters. -/
def inRoutine (c : Surroundings) (kind : Enclosing) (params : List Token) : Surroundings :=
  { c with scopes := c.scopes.enterRoutine params, routine := kind }

/-- Around the methods of a class. -/
def inClass {ρ : Type} (c : Surroundings) (superclass : Option (Reference ρ)) : Surroundings :=
  { c with
    scopes := c.scopes.enterClass superclass
    classKind := if superclass.isSome then .derived else .base }

/-- At a statement, and after it: what it declares is in scope. -/
def enter {ρ : Type} (c : Surroundings) (s : Stmt ρ) : Surroundings :=
  { c with scopes := c.scopes.enter s }

/-- The mistake of declaring a name twice in one local scope. -/
def redeclaration {ρ : Type} (c : Surroundings) (s : Stmt ρ) : List ScopeMistake :=
  match s.declared?, c.scopes with
  | some token, scope :: _ => if token.lexeme ∈ scope then [⟨token, .alreadyDeclared⟩] else []
  | _, _ => []

/-- The local variable whose initializer a declaration of the name would open. -/
def initializing (c : Surroundings) (name : Token) : Option String :=
  if c.scopes.isEmpty then none else some name.lexeme

end Surroundings

/-- The mistakes of naming two parameters alike. `earlier` holds the names before. -/
def repeatedParams (earlier : List String) : List Token → List ScopeMistake
  | [] => []
  | param :: rest =>
    (if param.lexeme ∈ earlier then [⟨param, .alreadyDeclared⟩] else []) ++
      repeatedParams (param.lexeme :: earlier) rest

/-- The role of a method in its class. -/
def methodKind (name : Token) : Enclosing :=
  if name.lexeme = initializerName then .initializer else .method

namespace Expr

mutual

/-- The mistakes of an expression in a class of the kind, and in the initializer of the local
variable, if it is in any. -/
def scopeMistakes (kind : ClassKind) (initializing : Option String) :
    Expr Blank → List ScopeMistake
  | .literal _ => []
  | .grouping inner => inner.scopeMistakes kind initializing
  | .unary _ operand => operand.scopeMistakes kind initializing
  | .binary left _ right | .logical left _ right =>
    left.scopeMistakes kind initializing ++ right.scopeMistakes kind initializing
  | .reference target =>
    if initializing = some target.name then [⟨target.token, .ownInitializer⟩] else []
  | .assign _ value => value.scopeMistakes kind initializing
  | .call callee _ values =>
    callee.scopeMistakes kind initializing ++ scopeMistakesAll kind initializing values
  | .property object _ => object.scopeMistakes kind initializing
  | .setProperty object _ value =>
    value.scopeMistakes kind initializing ++ object.scopeMistakes kind initializing
  | .this receiver =>
    if kind = .outside then [⟨receiver.token, .thisOutsideClass⟩] else []
  | .inherited superclass _ =>
    match kind with
    | .outside => [⟨superclass.token, .superOutsideClass⟩]
    | .base => [⟨superclass.token, .superWithoutSuperclass⟩]
    | .derived => []

/-- The mistakes of several expressions. -/
def scopeMistakesAll (kind : ClassKind) (initializing : Option String) :
    List (Expr Blank) → List ScopeMistake
  | [] => []
  | e :: rest => e.scopeMistakes kind initializing ++ scopeMistakesAll kind initializing rest

end

end Expr

namespace Stmt

mutual

/-- The mistakes of a statement, in surroundings that hold already what it declares. -/
def scopeMistakes (c : Surroundings) : Stmt Blank → List ScopeMistake
  | .malformed => []
  | .expression value | .print value => value.scopeMistakes c.classKind none
  | .declare _ none => []
  | .declare name (some initial) => initial.scopeMistakes c.classKind (c.initializing name)
  | .block body => scopeMistakesBody c.inBlock body
  | .branch condition whenTrue none =>
    condition.scopeMistakes c.classKind none ++
      (c.redeclaration whenTrue ++ whenTrue.scopeMistakes (c.enter whenTrue))
  | .branch condition whenTrue (some whenFalse) =>
    condition.scopeMistakes c.classKind none ++
      (c.redeclaration whenTrue ++ whenTrue.scopeMistakes (c.enter whenTrue)) ++
      (c.redeclaration whenFalse ++ whenFalse.scopeMistakes (c.enter whenFalse))
  | .loop condition body =>
    condition.scopeMistakes c.classKind none ++
      (c.redeclaration body ++ body.scopeMistakes (c.enter body))
  | .function routine => scopeMistakesRoutine c .function routine
  | .giveBack keyword value =>
    (if c.routine = .topLevel then [⟨keyword, .returnAtTopLevel⟩] else []) ++
      match value with
      | none => []
      | some v =>
        (if c.routine = .initializer then [⟨keyword, .valueFromInitializer⟩] else []) ++
          v.scopeMistakes c.classKind none
  | .klass name superclass methods =>
    (match superclass with
      | some target =>
        if target.name = name.lexeme then [⟨target.token, .selfInheritance⟩] else []
      | none => []) ++ scopeMistakesMethods (c.inClass superclass) methods

/-- The mistakes of consecutive statements. -/
def scopeMistakesBody (c : Surroundings) : List (Stmt Blank) → List ScopeMistake
  | [] => []
  | s :: rest =>
    c.redeclaration s ++ s.scopeMistakes (c.enter s) ++ scopeMistakesBody (c.enter s) rest

/-- The mistakes of a function or method. -/
def scopeMistakesRoutine (c : Surroundings) (kind : Enclosing) :
    Routine Blank → List ScopeMistake
  | .mk _ params body =>
    repeatedParams [] params ++ scopeMistakesBody (c.inRoutine kind params) body

/-- The mistakes of the methods of a class. -/
def scopeMistakesMethods (c : Surroundings) : List (Routine Blank) → List ScopeMistake
  | [] => []
  | .mk name params body :: rest =>
    repeatedParams [] params ++
      scopeMistakesBody (c.inRoutine (methodKind name) params) body ++ scopeMistakesMethods c rest

end

end Stmt

/-- The mistakes of scope in a program. -/
def scopeMistakes (statements : List (Stmt Blank)) : List ScopeMistake :=
  Stmt.scopeMistakesBody .topLevel statements

end LoxInterpreter
