import LoxInterpreter.Value

/-!
# How a run ends early

A program may fail, and then a token is to blame. Apart from that, `Fault` names the ends that scope
analysis is there to rule out, and `exhausted` a loop that went round too often.
-/

namespace LoxInterpreter

/-- What can go wrong while a program runs. -/
inductive RuntimeError where
  | operandNotNumber
  | operandsNotNumbers
  | operandsNotAddable
  | notCallable
  | wrongArity (expected got : Nat)
  | stackOverflow
  | noProperties
  | noFields
  | undefinedProperty (name : String)
  | undefinedVariable (name : String)
  | superclassNotClass
  deriving DecidableEq, Repr

/-- The wording of a runtime error. -/
def RuntimeError.message : RuntimeError → String
  | operandNotNumber => "Operand must be a number."
  | operandsNotNumbers => "Operands must be numbers."
  | operandsNotAddable => "Operands must be two numbers or two strings."
  | notCallable => "Can only call functions and classes."
  | wrongArity expected got =>
    "Expected " ++ toString expected ++ " arguments but got " ++ toString got ++ "."
  | stackOverflow => "Stack overflow."
  | noProperties => "Only instances have properties."
  | noFields => "Only instances have fields."
  | undefinedProperty name => "Undefined property '" ++ name ++ "'."
  | undefinedVariable name => "Undefined variable '" ++ name ++ "'."
  | superclassNotClass => "Superclass must be a class."

/-- Ends that do not happen to a program whose links are right, but for `unassignable`: a local
variable can be assigned to in its own initializer, when it is not there yet. -/
inductive Fault where
  /-- A read by distance went wrong. -/
  | access (error : AccessError)
  /-- A write by distance found no binding to change. -/
  | unassignable (name : Token)
  /-- `super` has no frame to be found in. -/
  | unlinkedSuper
  /-- No operator has this token. -/
  | badOperator (op : Token)
  /-- A `return` reached the top level. -/
  | returnAtTopLevel
  /-- A value names nothing in the store. -/
  | dangling
  deriving DecidableEq

/-- Why evaluation did not go on. -/
inductive Interruption where
  | failure (token : Token) (cause : RuntimeError)
  | fault (what : Fault)
  /-- A loop went round more often than it may. -/
  | exhausted
  deriving DecidableEq

/-- Programs on the machine that yield an `α`. The machine survives an early end. -/
abbrev Run (α : Type) := EStateM Interruption Machine α

/-- How a statement ends that does not end early: it carries on with the next one, or it is on its
way out to the call that takes the value. -/
inductive Completion where
  | normal
  | returning (value : Value)
  deriving DecidableEq

namespace Run

variable {α : Type}

/-- Fail, and blame a token. -/
def failAt (token : Token) (cause : RuntimeError) : Run α := throw (.failure token cause)

/-- End in a way that should not happen. -/
def faultWith (what : Fault) : Run α := throw (.fault what)

/-- The answer of the store, or a fault if there is none. -/
def expectSome : Option α → Run α
  | some a => return a
  | none => faultWith .dangling

/-- Make a frame without bindings. -/
def newFrame (enclosing : FrameId) : Run FrameId := do
  let id := (← get).forest.nextId
  modify fun m => { m with forest := m.forest.push (some enclosing) }
  return id

/-- Bind a name in a frame. -/
def define (id : FrameId) (name : String) (value : Value) : Run Unit :=
  modify fun m => { m with forest := m.forest.define id name value }

/-- Make a closure. -/
def newClosure (c : Closure) : Run ClosureId := do
  let id := (← get).closures.size
  modify fun m => { m with closures := m.closures.push c }
  return id

/-- Make a class. -/
def newClass (c : ClassRecord) : Run ClassId := do
  let id := (← get).classes.size
  modify fun m => { m with classes := m.classes.push c }
  return id

/-- Make an instance without fields. -/
def newInstance (klass : ClassId) : Run InstanceId := do
  let id := (← get).instances.size
  modify fun m => { m with instances := m.instances.push ⟨klass, []⟩ }
  return id

/-- Set a field of an instance. -/
def setField (id : InstanceId) (name : String) (value : Value) : Run Unit :=
  modify fun m => { m with
    instances := m.instances.modify id fun i =>
      { i with fields := bindName name value i.fields } }

/-- Print a line. -/
def printLine (line : String) : Run Unit :=
  modify fun m => { m with output := m.output ++ line ++ "\n" }

/-- Do something in a frame, and come back to the current one however it ends. -/
def inFrame (id : FrameId) (act : Run α) : Run α := fun m =>
  let home := m.current
  match act { m with current := id } with
  | .ok a m => .ok a { m with current := home }
  | .error e m => .error e { m with current := home }

end Run

end LoxInterpreter
