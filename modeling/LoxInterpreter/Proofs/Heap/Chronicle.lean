import LoxInterpreter.Proofs.Watch.Ledger

/-!
# A chronicle beside the run

The machine does not say what a frame was made for, and keeps no old states. Here programs run with
a chronicle beside the machine that does.

* `Origins` says of each frame what it was made for, and of each closure by what it was made.
* Each declaration, assignment and binding of a parameter enters the frame that it writes to, and
  each call the closure that is called.
* The machine is written down after each step that changes it. To make a frame that binds `this` or
  `super` is one step.

The definitions go along with those of evaluation, one by one. Steps that only look at the machine
are taken over as they are.
-/

namespace LoxInterpreter

open Run Noting
open Watched (newFrameBinding)

/-! ### The chronicle -/

/-- What a frame was made for. -/
inductive Purpose where
  | globals
  | block
  /-- The call of a closure. -/
  | call (id : ClosureId)
  /-- To tie a method to an instance. -/
  | receiver (object : Value)
  /-- To go around the methods of a class that has a superclass. -/
  | superclass (id : ClassId)
  deriving DecidableEq

/-- What a frame for the purpose binds, if it is not for the program to bind names there. -/
def Purpose.binding? : Purpose → Option (String × Value)
  | receiver object => some ("this", object)
  | superclass id => some ("super", .klass id)
  | globals | block | call _ => none

/-- What a closure was made by. -/
inductive Making where
  /-- The declaration of a function. -/
  | function
  /-- The declaration of a class. -/
  | method
  /-- Tying the method to an instance. -/
  | tied (method : ClosureId) (object : Value)
  deriving DecidableEq

/-- Where the frames and closures of a machine come from, in the order of their creation. -/
structure Origins where
  frames : Array Purpose
  closures : Array Making
  deriving DecidableEq

/-- The record of a run. -/
structure Chronicle where
  origins : Origins
  /-- The frames that the program wrote to, and the names that it bound there, latest first. -/
  writes : List (FrameId × String)
  /-- The closures that were called, latest first. -/
  calls : List ClosureId
  /-- What the machine has been, latest first. -/
  states : List Machine

/-- Nothing has happened yet to the machine, which has but the frame of the globals. -/
def Chronicle.beginning (m : Machine) : Chronicle := ⟨⟨#[.globals], #[]⟩, [], [], [m]⟩

/-- A machine with a chronicle. -/
abbrev Told := Noted Chronicle

/-- Programs that keep a chronicle. -/
abbrev Chronicled (α : Type) := Noting Chronicle α

/-- What a run with a chronicle takes from outside: the host of the plain run, and how the body of a
called closure is run with a chronicle. -/
structure Scribe where
  host : Host
  invoke : Token → ClosureId → List Value → Chronicled Value

namespace Chronicled

variable {α : Type}

/-! ### Entries -/

/-- A step of the machine, after which the machine is written down. -/
def step (act : Run α) : Chronicled α := do
  let a ← lift act
  note fun s => { s.notes with states := s.machine :: s.notes.states }
  return a

/-- Make a frame for a purpose. -/
def makeFrame (purpose : Purpose) (act : Run FrameId) : Chronicled FrameId := do
  note fun s => { s.notes with
    origins := { s.notes.origins with frames := s.notes.origins.frames.push purpose } }
  step act

/-- Make a closure. -/
def makeClosure (making : Making) (c : Closure) : Chronicled ClosureId := do
  note fun s => { s.notes with
    origins := { s.notes.origins with closures := s.notes.origins.closures.push making } }
  step (newClosure c)

/-- Bind a name in a frame, for the program. -/
def write (id : FrameId) (name : String) (value : Value) : Chronicled Unit := do
  note fun s => { s.notes with writes := (id, name) :: s.notes.writes }
  step (define id name value)

/-- Enter a call. -/
def enterCall (id : ClosureId) : Chronicled Unit :=
  note fun s => { s.notes with calls := id :: s.notes.calls }

/-! ### Names -/

/-- Change the nearest binding of a name, from a frame outward. -/
def assignFrom (id : FrameId) (name : Token) (value : Value) : Chronicled Unit := do
  match (← get).machine.forest.holder? id name.lexeme with
  | some holder => write holder name.lexeme value
  | none => lift (failAt name (.undefinedVariable name.lexeme))

/-- Change what the frame at a distance from the current one binds a name to. -/
def assignAt (distance : Nat) (name : Token) (value : Value) : Chronicled Unit := do
  let m := (← get).machine
  match m.forest.holderAt m.current distance name.lexeme with
  | .ok holder => write holder name.lexeme value
  | .error (.offChain d) => lift (faultWith (.access (.offChain d)))
  | .error (.unbound _) => lift (faultWith (.unassignable name))

/-- Assign where the link says. -/
def assign (r : Reference Place) (value : Value) : Chronicled Unit :=
  match r.link with
  | .global => assignFrom Machine.globals r.token value
  | .outward distance => assignAt distance r.token value

/-! ### Objects -/

/-- Tie a method to an instance. -/
def bindMethod (method : ClosureId) (receiver : Value) : Chronicled ClosureId := do
  let c ← lift (expectSome (← get).machine.closures[method]?)
  let home ← makeFrame (.receiver receiver) (newFrameBinding c.home "this" receiver)
  makeClosure (.tied method receiver) { c with home := home }

/-- Read a property. -/
def readProperty (object : Value) (name : Token) : Chronicled Value := do
  match object with
  | .object id =>
    let m := (← get).machine
    let found ← lift (expectSome m.instances[id]?)
    match found.fields.lookup name.lexeme with
    | some value => return value
    | none =>
      match m.findMethod? found.klass name.lexeme with
      | some method => return .closure (← bindMethod method object)
      | none => lift (failAt name (.undefinedProperty name.lexeme))
  | _ => lift (failAt name .noProperties)

/-- Fetch a method of the superclass for the current receiver. -/
def readInherited (superclass : Reference Place) (method : Token) : Chronicled Value := do
  match superclass.link with
  | .global => lift (faultWith .unlinkedSuper)
  | .outward distance =>
    let parent ← lift (readAt distance "super")
    let receiver ← lift (readAt (distance - 1) "this")
    match parent with
    | .klass id =>
      match (← get).machine.findMethod? id method.lexeme with
      | some m => return .closure (← bindMethod m receiver)
      | none => lift (failAt method (.undefinedProperty method.lexeme))
    | _ => lift (faultWith .dangling)

/-! ### Calls -/

/-- Make an instance and run its initializer, if its class has one. -/
def construct (scribe : Scribe) (paren : Token) (klass : ClassId) (values : List Value) :
    Chronicled Value := do
  let object := Value.object (← step (newInstance klass))
  match (← get).machine.findMethod? klass initializerName with
  | none => return object
  | some method =>
    let initializer ← bindMethod method object
    let _ ← scribe.invoke paren initializer values
    return object

/-- Call a value. -/
def callValue (scribe : Scribe) (paren : Token) (callee : Value) (values : List Value) :
    Chronicled Value := do
  match arity? (← get).machine callee with
  | none => lift (failAt paren .notCallable)
  | some arity =>
    if values.length ≠ arity then lift (failAt paren (.wrongArity arity values.length))
    else
      match callee with
      | .native f => step (callNative scribe.host f values)
      | .closure id => scribe.invoke paren id values
      | .klass id => construct scribe paren id values
      | _ => lift (failAt paren .notCallable)

/-! ### Expressions -/

mutual

/-- Evaluate an expression. -/
def evaluate (scribe : Scribe) : Expr Place → Chronicled Value
  | .literal value => return value.toValue
  | .grouping inner => evaluate scribe inner
  | .unary op operand => do
    let x ← evaluate scribe operand
    lift (applyUnary op x)
  | .binary left op right => do
    let x ← evaluate scribe left
    let y ← evaluate scribe right
    lift (applyBinary op x y)
  | .logical left op right => do
    let x ← evaluate scribe left
    if settles op x then return x else evaluate scribe right
  | .reference target => lift (scribe.host.names.read target)
  | .assign target value => do
    let x ← evaluate scribe value
    assign target x
    return x
  | .call callee paren values => do
    let f ← evaluate scribe callee
    let xs ← evaluateAll scribe values
    callValue scribe paren f xs
  | .property object name => do
    let x ← evaluate scribe object
    readProperty x name
  | .setProperty object name value => do
    match ← evaluate scribe object with
    | .object id =>
      let x ← evaluate scribe value
      step (setField id name.lexeme x)
      return x
    | _ => lift (failAt name .noFields)
  | .this receiver => lift (scribe.host.names.read receiver)
  | .inherited superclass method => readInherited superclass method

/-- Evaluate expressions in order. -/
def evaluateAll (scribe : Scribe) : List (Expr Place) → Chronicled (List Value)
  | [] => return []
  | e :: rest => do
    let x ← evaluate scribe e
    let xs ← evaluateAll scribe rest
    return x :: xs

end

/-- The value of an expression that may be missing. -/
def evaluateOptional (scribe : Scribe) : Option (Expr Place) → Chronicled Value
  | none => return .nil
  | some e => evaluate scribe e

/-! ### Statements -/

/-- Go round as long as the test says so and the body carries on. -/
def repeatWhile (test : Chronicled Bool) (body : Chronicled Completion) :
    Nat → Chronicled Completion
  | 0 => throw .exhausted
  | rounds + 1 => do
    if ← test then
      match ← body with
      | .normal => repeatWhile test body rounds
      | .returning value => return .returning value
    else return .normal

/-- Make the closures of a class. -/
def newMethods (home : FrameId) (methods : List (String × ClosureId)) :
    List (Routine Place) → Chronicled (List (String × ClosureId))
  | [] => return methods
  | m :: rest => do
    let name := m.name.lexeme
    let id ← makeClosure .method ⟨m, home, name == initializerName⟩
    newMethods home (bindName name id methods) rest

/-- Declare a class. -/
def declareClass (scribe : Scribe) (name : Token) (superclass : Option (Reference Place))
    (methods : List (Routine Place)) : Chronicled Unit := do
  let parent ← lift (superclassOf scribe.host superclass)
  let home := (← get).machine.current
  write home name.lexeme .nil
  let natal ← match parent with
    | none => pure home
    | some id => makeFrame (.superclass id) (newFrameBinding home "super" (.klass id))
  let table ← newMethods natal [] methods
  let id ← step (newClass ⟨name.lexeme, parent, table⟩)
  assignFrom home name (.klass id)

mutual

/-- Execute a statement. -/
def execute (scribe : Scribe) : Stmt Place → Chronicled Completion
  | .malformed => return .normal
  | .expression value => do
    let _ ← evaluate scribe value
    return .normal
  | .print value => do
    let x ← evaluate scribe value
    step (printLine ((← get).machine.textOf x))
    return .normal
  | .declare name initial => do
    let x ← evaluateOptional scribe initial
    write (← get).machine.current name.lexeme x
    return .normal
  | .block body => do
    let frame ← makeFrame .block (newFrame (← get).machine.current)
    inside frame (executeAll scribe body)
  | .branch condition whenTrue none => do
    let x ← evaluate scribe condition
    if x.truthy then execute scribe whenTrue else return .normal
  | .branch condition whenTrue (some whenFalse) => do
    let x ← evaluate scribe condition
    if x.truthy then execute scribe whenTrue else execute scribe whenFalse
  | .loop condition body =>
    repeatWhile (do return (← evaluate scribe condition).truthy) (execute scribe body)
      scribe.host.rounds
  | .function routine => do
    let home := (← get).machine.current
    let id ← makeClosure .function ⟨routine, home, false⟩
    write home routine.name.lexeme (.closure id)
    return .normal
  | .giveBack _ value => return .returning (← evaluateOptional scribe value)
  | .klass name superclass methods => do
    declareClass scribe name superclass methods
    return .normal

/-- Execute statements in order, up to one that returns. -/
def executeAll (scribe : Scribe) : List (Stmt Place) → Chronicled Completion
  | [] => return .normal
  | s :: rest => do
    match ← execute scribe s with
    | .normal => executeAll scribe rest
    | .returning value => return .returning value

end

/-! ### Closures -/

/-- Bind parameters to arguments in a frame. -/
def bindParams (frame : FrameId) : List Token → List Value → Chronicled Unit
  | param :: params, value :: values => do
    write frame param.lexeme value
    bindParams frame params values
  | _, _ => return ()

/-- Run the body of a closure. -/
def runClosure (scribe : Scribe) (id : ClosureId) (values : List Value) : Chronicled Value := do
  enterCall id
  let c ← lift (expectSome (← get).machine.closures[id]?)
  let frame ← makeFrame (.call id) (newFrame c.home)
  bindParams frame c.routine.params values
  let completion ← inside frame (executeAll scribe c.routine.body)
  lift (resultOf c completion)

/-- Run a closure with at most that many calls of closures inside each other. -/
def invokeAt (answers : Answers) (rounds : Nat) :
    Nat → Token → ClosureId → List Value → Chronicled Value
  | 0, paren, _, _ => lift (failAt paren .stackOverflow)
  | depth + 1, _, id, values =>
    runClosure ⟨⟨.byDistance, answers, Run.invokeAt .byDistance answers rounds depth, rounds⟩,
      invokeAt answers rounds depth⟩ id values

/-- Run top-level statements in order. -/
def interpret (scribe : Scribe) : List (Stmt Place) → Chronicled Unit
  | [] => return ()
  | s :: rest => do
    match ← execute scribe s with
    | .normal => interpret scribe rest
    | .returning _ => lift (faultWith .returnAtTopLevel)

end Chronicled

/-- The usual host, with a chronicle. -/
def Run.Limits.scribe (answers : Answers) (limits : Limits) : Scribe :=
  ⟨limits.hostBy .byDistance answers, Chronicled.invokeAt answers limits.rounds limits.depth⟩

/-! ### Sessions -/

namespace Session

/-- Run a text with a chronicle. -/
def chronicle (limits : Limits) (text : String) (s : Session) (c : Chronicle) :
    (Session × Option Escape) × Chronicle :=
  match Reporting.check text s.report with
  | .error why report => (({ s with report }, some (.givingUp why)), c)
  | .ok none report => (({ s with report }, none), c)
  | .ok (some program) report =>
    match Chronicled.interpret (limits.scribe s.answers) program ⟨s.machine, c⟩ with
    | .ok _ t => (({ s with report, machine := t.machine }, none), t.notes)
    | .error (.failure token cause) t =>
      (({ s with report := { report with failure := some ⟨token, cause.message⟩ },
                 machine := t.machine }, none), t.notes)
    | .error (.fault what) t =>
      (({ s with report, machine := t.machine }, some (.fault what)), t.notes)
    | .error .exhausted t => (({ s with report, machine := t.machine }, some .exhausted), t.notes)

/-- Run texts in order with one chronicle. Issues and failures are forgotten after each. -/
def chronicleAll (limits : Limits) : List String → Session → Chronicle → Session × Chronicle
  | [], s, c => (s, c)
  | text :: rest, s, c =>
    let told := s.chronicle limits text c
    chronicleAll limits rest told.1.1.reset told.2

end Session

end LoxInterpreter
