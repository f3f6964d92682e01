import LoxInterpreter.Run.Operator
import LoxInterpreter.Run.Names
import LoxInterpreter.Scope.Mistake

/-!
# Evaluation

Expressions yield values and statements yield completions, by recursion on the tree. What does not
follow the tree is a parameter (`Host`): how names are found, what the functions of the host answer,
how the body of a called closure is run, and how often a loop may go round. `invokeAt` ties the knot
for a given depth of calls.

Frames follow the scopes of the text: every block, every call, every fetched method and the head of
every class with a superclass makes one, so that the distances of a linked tree count frames.
-/

namespace LoxInterpreter.Run

/-- What evaluation takes from outside. -/
structure Host where
  names : Names
  answers : Answers
  /-- Run a closure on its arguments; the token is the closing parenthesis of the call. -/
  invoke : Token → ClosureId → List Value → Run Value
  /-- How often a loop may go round. -/
  rounds : Nat

/-! ### Objects -/

/-- Tie a method to an instance: a new closure whose home is a frame that binds `this`. -/
def bindMethod (method : ClosureId) (receiver : Value) : Run ClosureId := do
  let c ← expectSome (← get).closures[method]?
  let home ← newFrame c.home
  define home "this" receiver
  newClosure { c with home := home }

/-- Read a property. Fields come before methods, and a method is tied to the instance. -/
def readProperty (object : Value) (name : Token) : Run Value := do
  match object with
  | .object id =>
    let m ← get
    let found ← expectSome m.instances[id]?
    match found.fields.lookup name.lexeme with
    | some value => return value
    | none =>
      match m.findMethod? found.klass name.lexeme with
      | some method => return .closure (← bindMethod method object)
      | none => failAt name (.undefinedProperty name.lexeme)
  | _ => failAt name .noProperties

/-- Fetch a method of the superclass for the current receiver. The frame that binds `this` is just
inside the one that binds `super`. -/
def readInherited (superclass : Reference Place) (method : Token) : Run Value := do
  match superclass.link with
  | .global => faultWith .unlinkedSuper
  | .outward distance =>
    let parent ← readAt distance "super"
    let receiver ← readAt (distance - 1) "this"
    match parent with
    | .klass id =>
      match (← get).findMethod? id method.lexeme with
      | some m => return .closure (← bindMethod m receiver)
      | none => failAt method (.undefinedProperty method.lexeme)
    | _ => faultWith .dangling

/-! ### Calls -/

/-- How many arguments a value takes when it is called, if it can be called. A class takes as many
as its initializer. -/
def arity? (m : Machine) : Value → Option Nat
  | .native f => some f.arity
  | .closure id => m.closures[id]?.map (·.routine.params.length)
  | .klass id =>
    some (((m.findMethod? id initializerName).bind fun c => m.closures[c]?.map
      (·.routine.params.length)).getD 0)
  | _ => none

/-- Ask a function of the host. -/
def callNative (host : Host) (f : Native) (values : List Value) : Run Value := do
  modify fun m => { m with calls := (f, values) :: m.calls }
  return host.answers (← get) f values

/-- Make an instance and run its initializer, if its class has one. -/
def construct (host : Host) (paren : Token) (klass : ClassId) (values : List Value) :
    Run Value := do
  let object := Value.object (← newInstance klass)
  match (← get).findMethod? klass initializerName with
  | none => return object
  | some method =>
    let initializer ← bindMethod method object
    let _ ← host.invoke paren initializer values
    return object

/-- Call a value. -/
def callValue (host : Host) (paren : Token) (callee : Value) (values : List Value) :
    Run Value := do
  match arity? (← get) callee with
  | none => failAt paren .notCallable
  | some arity =>
    if values.length ≠ arity then failAt paren (.wrongArity arity values.length)
    else
      match callee with
      | .native f => callNative host f values
      | .closure id => host.invoke paren id values
      | .klass id => construct host paren id values
      | _ => failAt paren .notCallable

/-! ### Expressions -/

mutual

/-- Evaluate an expression. -/
def evaluate (host : Host) : Expr Place → Run Value
  | .literal value => return value.toValue
  | .grouping inner => evaluate host inner
  | .unary op operand => do applyUnary op (← evaluate host operand)
  | .binary left op right => do
    let x ← evaluate host left
    let y ← evaluate host right
    applyBinary op x y
  | .logical left op right => do
    let x ← evaluate host left
    if settles op x then return x else evaluate host right
  | .reference target => host.names.read target
  | .assign target value => do
    let x ← evaluate host value
    host.names.write target x
    return x
  | .call callee paren values => do
    let f ← evaluate host callee
    let xs ← evaluateAll host values
    callValue host paren f xs
  | .property object name => do readProperty (← evaluate host object) name
  | .setProperty object name value => do
    match ← evaluate host object with
    | .object id =>
      let x ← evaluate host value
      setField id name.lexeme x
      return x
    | _ => failAt name .noFields
  | .this receiver => host.names.read receiver
  | .inherited superclass method => readInherited superclass method

/-- Evaluate expressions in order. -/
def evaluateAll (host : Host) : List (Expr Place) → Run (List Value)
  | [] => return []
  | e :: rest => do
    let x ← evaluate host e
    let xs ← evaluateAll host rest
    return x :: xs

end

/-- The value of an expression that may be missing, which is `nil` then. -/
def evaluateOptional (host : Host) : Option (Expr Place) → Run Value
  | none => return .nil
  | some e => evaluate host e

/-! ### Statements -/

/-- Go round as long as the test says so and the body carries on. -/
def repeatWhile (test : Run Bool) (body : Run Completion) : Nat → Run Completion
  | 0 => throw .exhausted
  | rounds + 1 => do
    if ← test then
      match ← body with
      | .normal => repeatWhile test body rounds
      | .returning value => return .returning value
    else return .normal

/-- The class that the head of a class names as its superclass. -/
def superclassOf (host : Host) : Option (Reference Place) → Run (Option ClassId)
  | none => return none
  | some target => do
    match ← host.names.read target with
    | .klass id => return some id
    | _ => failAt target.token .superclassNotClass

/-- Make the closures of a class. Of two methods with one name the later counts. -/
def newMethods (home : FrameId) (methods : List (String × ClosureId)) :
    List (Routine Place) → Run (List (String × ClosureId))
  | [] => return methods
  | m :: rest => do
    let name := m.name.lexeme
    let id ← newClosure ⟨m, home, name == initializerName⟩
    newMethods home (bindName name id methods) rest

/-- Declare a class. Its name is bound before its methods are made, and then again to the finished
class; a frame that binds `super` goes around the methods if there is a superclass. -/
def declareClass (host : Host) (name : Token) (superclass : Option (Reference Place))
    (methods : List (Routine Place)) : Run Unit := do
  let parent ← superclassOf host superclass
  let home := (← get).current
  define home name.lexeme .nil
  let natal ← match parent with
    | none => pure home
    | some id => do
      let frame ← newFrame home
      define frame "super" (.klass id)
      pure frame
  let table ← newMethods natal [] methods
  let id ← newClass ⟨name.lexeme, parent, table⟩
  assignFrom home name (.klass id)

mutual

/-- Execute a statement. A statement that could not be parsed does nothing. -/
def execute (host : Host) : Stmt Place → Run Completion
  | .malformed => return .normal
  | .expression value => do
    let _ ← evaluate host value
    return .normal
  | .print value => do
    let x ← evaluate host value
    printLine ((← get).textOf x)
    return .normal
  | .declare name initial => do
    let x ← evaluateOptional host initial
    define (← get).current name.lexeme x
    return .normal
  | .block body => do
    let frame ← newFrame (← get).current
    inFrame frame (executeAll host body)
  | .branch condition whenTrue none => do
    if (← evaluate host condition).truthy then execute host whenTrue else return .normal
  | .branch condition whenTrue (some whenFalse) => do
    if (← evaluate host condition).truthy then execute host whenTrue else execute host whenFalse
  | .loop condition body =>
    repeatWhile (do return (← evaluate host condition).truthy) (execute host body) host.rounds
  | .function routine => do
    let home := (← get).current
    let id ← newClosure ⟨routine, home, false⟩
    define home routine.name.lexeme (.closure id)
    return .normal
  | .giveBack _ value => do return .returning (← evaluateOptional host value)
  | .klass name superclass methods => do
    declareClass host name superclass methods
    return .normal

/-- Execute statements in order, up to one that returns. -/
def executeAll (host : Host) : List (Stmt Place) → Run Completion
  | [] => return .normal
  | s :: rest => do
    match ← execute host s with
    | .normal => executeAll host rest
    | .returning value => return .returning value

end

/-! ### Closures -/

/-- Bind parameters to arguments in a frame. -/
def bindParams (frame : FrameId) : List Token → List Value → Run Unit
  | param :: params, value :: values => do
    define frame param.lexeme value
    bindParams frame params values
  | _, _ => return ()

/-- Run the body of a closure in a new frame. An initializer hands back its instance, however its
body ends. -/
def runClosure (host : Host) (id : ClosureId) (values : List Value) : Run Value := do
  let c ← expectSome (← get).closures[id]?
  let frame ← newFrame c.home
  bindParams frame c.routine.params values
  let completion ← inFrame frame (executeAll host c.routine.body)
  if c.isInitializer then
    match (← get).forest.getAt c.home 0 "this" with
    | .ok receiver => return receiver
    | .error e => faultWith (.access e)
  else
    match completion with
    | .normal => return .nil
    | .returning value => return value

/-- Run a closure with at most that many calls of closures inside each other. -/
def invokeAt (names : Names) (answers : Answers) (rounds : Nat) :
    Nat → Token → ClosureId → List Value → Run Value
  | 0, paren, _, _ => failAt paren .stackOverflow
  | depth + 1, _, id, values =>
    runClosure ⟨names, answers, invokeAt names answers rounds depth, rounds⟩ id values

/-- How long a run may take. -/
structure Limits where
  /-- How many calls of closures may be active at a time. -/
  depth : Nat
  /-- How often a loop may go round. -/
  rounds : Nat

/-- The host of a program that finds names in a given way, under given limits. -/
def Limits.hostBy (names : Names) (answers : Answers) (limits : Limits) : Host :=
  ⟨names, answers, invokeAt names answers limits.rounds limits.depth, limits.rounds⟩

/-- The usual host of a program under given limits. -/
def Limits.host (limits : Limits) : Host := limits.hostBy .byDistance .usual

/-- Run top-level statements in order. -/
def interpret (host : Host) : List (Stmt Place) → Run Unit
  | [] => return ()
  | s :: rest => do
    match ← execute host s with
    | .normal => interpret host rest
    | .returning _ => faultWith .returnAtTopLevel

end LoxInterpreter.Run
