import LoxInterpreter.Proofs.Run.Notes
import LoxInterpreter.Proofs.Run.Returns
import LoxInterpreter.Session

/-!
# A ledger beside the run

What `this` and `super` mean in a piece of code is settled by events: a class is declared by
executing its declaration, a method is fetched for an instance, a function is made while a method
runs. Evaluation itself keeps no record of these events; it finds both words by counting frames.
Here programs run with a ledger beside the machine that does keep the record, without looking at any
frame.

* A closure gets its `Bond` when it is made. A method that is declared gets the superclass that the
  head of its class came to, if there is one, in front of the bond of the code that declares the
  class; a method that is fetched gets its instance in front of that; a function gets the bond of
  the code that makes it. Code runs with the bond of the closure that it belongs to.
* Each evaluation of `this` and of `super` enters a `Sighting` into the ledger: what was found by
  counting frames, next to the bond.
* Each call of a class or of a closure that comes to a value enters a `CallRecord`.

The definitions go along with those of evaluation, one by one. Steps that make no closure and run no
code are taken over as they are.
-/

namespace LoxInterpreter

open Run Noting

/-! ### Bonds -/

/-- What a class puts around the code of its methods. -/
inductive Tie where
  /-- The instance for which the method has been fetched. -/
  | receiver (object : Value)
  /-- The class that the superclass in the head of the class came to. -/
  | superclass (id : ClassId)
  deriving DecidableEq

/-- What the classes around a piece of code put around it, innermost first. -/
abbrev Bond := List Tie

namespace Bond

/-- The instance of the innermost method around the code. -/
def receiver? : Bond → Option Value
  | .receiver object :: _ => some object
  | _ => none

/-- The superclass of the innermost class around the code, if it has one. -/
def superclass? : Bond → Option ClassId
  | .receiver _ :: .superclass id :: _ => some id
  | _ => none

/-- The bond of the methods of a class. -/
def inClass (bond : Bond) : Option ClassId → Bond
  | none => bond
  | some id => .superclass id :: bond

end Bond

/-- Where a closure comes from. -/
structure Origin where
  /-- The bond of its body. -/
  bond : Bond
  /-- A class has declared it. -/
  isMethod : Bool
  deriving DecidableEq

/-! ### The ledger -/

/-- What an evaluation of a keyword came to in code with a bond. -/
inductive Sighting where
  | this (bond : Bond) (object : Value)
  /-- The class that is searched for the method, and the instance that the method is tied to. -/
  | super (bond : Bond) (searched : ClassId) (object : Value)
  deriving DecidableEq

/-- The keyword came to what the bond says. -/
def Sighting.Right : Sighting → Prop
  | this bond object => bond.receiver? = some object
  | super bond searched object => bond.superclass? = some searched ∧ bond.receiver? = some object

/-- What a call came to. -/
inductive CallRecord where
  /-- A class was called when there were so many instances; the class of the result is that of an
  instance. -/
  | made (klass : ClassId) (older : Nat) (result : Value) (resultClass : Option ClassId)
  /-- A closure of that name was called, and its body ended in this way. -/
  | ended (origin : Origin) (name : String) (completion : Completion) (result : Value)
  deriving DecidableEq

/-- A class makes a new instance of itself, an initializer hands its own instance back however its
body ends, and any other closure hands back what its body comes to. -/
def CallRecord.Right : CallRecord → Prop
  | made klass older result resultClass => result = .object older ∧ resultClass = some klass
  | ended origin name completion result =>
    if origin.isMethod ∧ name = initializerName then origin.bond.receiver? = some result
    else result = completion.value

/-- The record of a run. -/
structure Ledger where
  /-- Where the closures come from, in the order of their creation. -/
  origins : Array Origin
  /-- Latest first. -/
  sightings : List Sighting
  /-- Latest first. -/
  calls : List CallRecord

/-- Nothing has happened. -/
def Ledger.blank : Ledger := ⟨#[], [], []⟩

/-- A machine with a ledger. -/
abbrev Watch := Noted Ledger

/-- Programs that keep a ledger. -/
abbrev Watched (α : Type) := Noting Ledger α

/-- What watching takes from outside: the host that is watched, and how the body of a called closure
is run with a ledger. -/
structure Watcher where
  host : Host
  invoke : Token → ClosureId → List Value → Watched Value

namespace Watched

/-- Where a closure comes from. -/
def originOf (id : ClosureId) : Watched Origin :=
  return (← get).notes.origins.getD id ⟨[], false⟩

/-- Enter where the closure comes from that has just been made. -/
def enterOrigin (origin : Origin) : Watched Unit :=
  note fun s => { s.notes with origins := s.notes.origins.push origin }

/-- Enter a sighting. -/
def enterSighting (sighting : Sighting) : Watched Unit :=
  note fun s => { s.notes with sightings := sighting :: s.notes.sightings }

/-- Enter a call. -/
def enterCall (call : CallRecord) : Watched Unit :=
  note fun s => { s.notes with calls := call :: s.notes.calls }

/-! ### Objects -/

/-- Tie a method to an instance. -/
def bindMethod (method : ClosureId) (receiver : Value) : Watched ClosureId := do
  let origin ← originOf method
  let id ← lift (Run.bindMethod method receiver)
  enterOrigin { origin with bond := .receiver receiver :: origin.bond }
  return id

/-- Read a property. -/
def readProperty (object : Value) (name : Token) : Watched Value := do
  match object with
  | .object id =>
    let m := (← get).machine
    let found ← lift (expectSome m.instances[id]?)
    match found.fields.lookup name.lexeme with
    | some value => return value
    | none =>
      match m.findMethod? found.klass name.lexeme with
      | some method => return .closure (← bindMethod method object)
      | none => lift (failAt name (.undefinedProperty name.lexeme))
  | _ => lift (failAt name .noProperties)

/-- Fetch a method of the superclass for the current receiver. -/
def readInherited (bond : Bond) (superclass : Reference Place) (method : Token) :
    Watched Value := do
  match superclass.link with
  | .global => lift (faultWith .unlinkedSuper)
  | .outward distance =>
    let parent ← lift (readAt distance "super")
    let receiver ← lift (readAt (distance - 1) "this")
    match parent with
    | .klass id =>
      enterSighting (.super bond id receiver)
      match (← get).machine.findMethod? id method.lexeme with
      | some m => return .closure (← bindMethod m receiver)
      | none => lift (failAt method (.undefinedProperty method.lexeme))
    | _ => lift (faultWith .dangling)

/-! ### Calls -/

/-- Make an instance and run its initializer, if its class has one. -/
def construct (watcher : Watcher) (paren : Token) (klass : ClassId) (values : List Value) :
    Watched Value := do
  let object := Value.object (← lift (newInstance klass))
  match (← get).machine.findMethod? klass initializerName with
  | none => return object
  | some method =>
    let initializer ← bindMethod method object
    let _ ← watcher.invoke paren initializer values
    return object

/-- The class of an instance. -/
def classOf? (m : Machine) : Value → Option ClassId
  | .object id => m.instances[id]?.map Instance.klass
  | _ => none

/-- Call a value. -/
def callValue (watcher : Watcher) (paren : Token) (callee : Value) (values : List Value) :
    Watched Value := do
  match arity? (← get).machine callee with
  | none => lift (failAt paren .notCallable)
  | some arity =>
    if values.length ≠ arity then lift (failAt paren (.wrongArity arity values.length))
    else
      match callee with
      | .native f => lift (callNative watcher.host f values)
      | .closure id => watcher.invoke paren id values
      | .klass id => do
        let older := (← get).machine.instances.size
        let result ← construct watcher paren id values
        enterCall (.made id older result (classOf? (← get).machine result))
        return result
      | _ => lift (failAt paren .notCallable)

/-! ### Expressions -/

mutual

/-- Evaluate an expression in code with a bond. -/
def evaluate (watcher : Watcher) (bond : Bond) : Expr Place → Watched Value
  | .literal value => return value.toValue
  | .grouping inner => evaluate watcher bond inner
  | .unary op operand => do
    let x ← evaluate watcher bond operand
    lift (applyUnary op x)
  | .binary left op right => do
    let x ← evaluate watcher bond left
    let y ← evaluate watcher bond right
    lift (applyBinary op x y)
  | .logical left op right => do
    let x ← evaluate watcher bond left
    if settles op x then return x else evaluate watcher bond right
  | .reference target => lift (watcher.host.names.read target)
  | .assign target value => do
    let x ← evaluate watcher bond value
    lift (watcher.host.names.write target x)
    return x
  | .call callee paren values => do
    let f ← evaluate watcher bond callee
    let xs ← evaluateAll watcher bond values
    callValue watcher paren f xs
  | .property object name => do
    let x ← evaluate watcher bond object
    readProperty x name
  | .setProperty object name value => do
    match ← evaluate watcher bond object with
    | .object id =>
      let x ← evaluate watcher bond value
      lift (setField id name.lexeme x)
      return x
    | _ => lift (failAt name .noFields)
  | .this receiver => do
    let object ← lift (watcher.host.names.read receiver)
    enterSighting (.this bond object)
    return object
  | .inherited superclass method => readInherited bond superclass method

/-- Evaluate expressions in order. -/
def evaluateAll (watcher : Watcher) (bond : Bond) : List (Expr Place) → Watched (List Value)
  | [] => return []
  | e :: rest => do
    let x ← evaluate watcher bond e
    let xs ← evaluateAll watcher bond rest
    return x :: xs

end

/-- The value of an expression that may be missing. -/
def evaluateOptional (watcher : Watcher) (bond : Bond) : Option (Expr Place) → Watched Value
  | none => return .nil
  | some e => evaluate watcher bond e

/-! ### Statements -/

/-- Go round as long as the test says so and the body carries on. -/
def repeatWhile (test : Watched Bool) (body : Watched Completion) : Nat → Watched Completion
  | 0 => throw .exhausted
  | rounds + 1 => do
    if ← test then
      match ← body with
      | .normal => repeatWhile test body rounds
      | .returning value => return .returning value
    else return .normal

/-- Make a closure. -/
def newClosure (origin : Origin) (c : Closure) : Watched ClosureId := do
  let id ← lift (Run.newClosure c)
  enterOrigin origin
  return id

/-- Make the closures of a class. -/
def newMethods (bond : Bond) (home : FrameId) (methods : List (String × ClosureId)) :
    List (Routine Place) → Watched (List (String × ClosureId))
  | [] => return methods
  | m :: rest => do
    let name := m.name.lexeme
    let id ← newClosure ⟨bond, true⟩ ⟨m, home, name == initializerName⟩
    newMethods bond home (bindName name id methods) rest

/-- A frame that binds one name. -/
def newFrameBinding (enclosing : FrameId) (name : String) (value : Value) : Run FrameId := do
  let frame ← newFrame enclosing
  define frame name value
  return frame

/-- Declare a class in code with a bond. -/
def declareClass (watcher : Watcher) (bond : Bond) (name : Token)
    (superclass : Option (Reference Place)) (methods : List (Routine Place)) : Watched Unit := do
  let parent ← lift (superclassOf watcher.host superclass)
  let home := (← get).machine.current
  lift (define home name.lexeme .nil)
  let natal ← match parent with
    | none => pure home
    | some id => lift (newFrameBinding home "super" (.klass id))
  let table ← newMethods (bond.inClass parent) natal [] methods
  let id ← lift (newClass ⟨name.lexeme, parent, table⟩)
  lift (assignFrom home name (.klass id))

mutual

/-- Execute a statement in code with a bond. -/
def execute (watcher : Watcher) (bond : Bond) : Stmt Place → Watched Completion
  | .malformed => return .normal
  | .expression value => do
    let _ ← evaluate watcher bond value
    return .normal
  | .print value => do
    let x ← evaluate watcher bond value
    lift (printLine ((← get).machine.textOf x))
    return .normal
  | .declare name initial => do
    let x ← evaluateOptional watcher bond initial
    lift (define (← get).machine.current name.lexeme x)
    return .normal
  | .block body => do
    let frame ← lift (newFrame (← get).machine.current)
    inside frame (executeAll watcher bond body)
  | .branch condition whenTrue none => do
    let x ← evaluate watcher bond condition
    if x.truthy then execute watcher bond whenTrue else return .normal
  | .branch condition whenTrue (some whenFalse) => do
    let x ← evaluate watcher bond condition
    if x.truthy then execute watcher bond whenTrue else execute watcher bond whenFalse
  | .loop condition body =>
    repeatWhile (do return (← evaluate watcher bond condition).truthy) (execute watcher bond body)
      watcher.host.rounds
  | .function routine => do
    let home := (← get).machine.current
    let id ← newClosure ⟨bond, false⟩ ⟨routine, home, false⟩
    lift (define home routine.name.lexeme (.closure id))
    return .normal
  | .giveBack _ value => return .returning (← evaluateOptional watcher bond value)
  | .klass name superclass methods => do
    declareClass watcher bond name superclass methods
    return .normal

/-- Execute statements in order, up to one that returns. -/
def executeAll (watcher : Watcher) (bond : Bond) : List (Stmt Place) → Watched Completion
  | [] => return .normal
  | s :: rest => do
    match ← execute watcher bond s with
    | .normal => executeAll watcher bond rest
    | .returning value => return .returning value

end

/-! ### Closures -/

/-- Run the body of a closure, with its bond. -/
def runClosure (watcher : Watcher) (id : ClosureId) (values : List Value) : Watched Value := do
  let c ← lift (expectSome (← get).machine.closures[id]?)
  let origin ← originOf id
  let frame ← lift (newFrame c.home)
  lift (bindParams frame c.routine.params values)
  let completion ← inside frame (executeAll watcher origin.bond c.routine.body)
  let result ← lift (resultOf c completion)
  enterCall (.ended origin c.routine.name.lexeme completion result)
  return result

/-- Run a closure with at most that many calls of closures inside each other. -/
def invokeAt (answers : Answers) (rounds : Nat) :
    Nat → Token → ClosureId → List Value → Watched Value
  | 0, paren, _, _ => lift (failAt paren .stackOverflow)
  | depth + 1, _, id, values =>
    runClosure ⟨⟨.byDistance, answers, Run.invokeAt .byDistance answers rounds depth, rounds⟩,
      invokeAt answers rounds depth⟩ id values

/-- Run top-level statements in order. -/
def interpret (watcher : Watcher) : List (Stmt Place) → Watched Unit
  | [] => return ()
  | s :: rest => do
    match ← execute watcher [] s with
    | .normal => interpret watcher rest
    | .returning _ => lift (faultWith .returnAtTopLevel)

end Watched

/-- The usual host, watched. -/
def Run.Limits.watcher (answers : Answers) (limits : Limits) : Watcher :=
  ⟨limits.hostBy .byDistance answers, Watched.invokeAt answers limits.rounds limits.depth⟩

/-! ### Sessions -/

namespace Session

/-- Run a text with a ledger. -/
def watch (limits : Limits) (text : String) (s : Session) (ledger : Ledger) :
    (Session × Option Escape) × Ledger :=
  match Reporting.check text s.report with
  | .error why report => (({ s with report }, some (.givingUp why)), ledger)
  | .ok none report => (({ s with report }, none), ledger)
  | .ok (some program) report =>
    match Watched.interpret (limits.watcher s.answers) program ⟨s.machine, ledger⟩ with
    | .ok _ w => (({ s with report, machine := w.machine }, none), w.notes)
    | .error (.failure token cause) w =>
      (({ s with report := { report with failure := some ⟨token, cause.message⟩ },
                 machine := w.machine }, none), w.notes)
    | .error (.fault what) w =>
      (({ s with report, machine := w.machine }, some (.fault what)), w.notes)
    | .error .exhausted w => (({ s with report, machine := w.machine }, some .exhausted), w.notes)

/-- Run texts in order with one ledger. Issues and failures are forgotten after each. -/
def watchAll (limits : Limits) : List String → Session → Ledger → Session × Ledger
  | [], s, ledger => (s, ledger)
  | text :: rest, s, ledger =>
    let watched := s.watch limits text ledger
    watchAll limits rest watched.1.1.reset watched.2

end Session

end LoxInterpreter
