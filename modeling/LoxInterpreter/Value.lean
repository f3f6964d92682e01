import LoxInterpreter.Tree
import LoxInterpreter.Forest
import LoxInterpreter.Decimal.Notation

/-!
# Values and the machine

The values of a running program, and the store they live in. Functions, classes and instances are
named by their number in order of creation, so that two of them are equal exactly if they are one
and the same. Nothing is ever removed from the store.
-/

namespace LoxInterpreter

/-- Closures are named by number. -/
abbrev ClosureId := Nat

/-- Classes are named by number. -/
abbrev ClassId := Nat

/-- Instances are named by number. -/
abbrev InstanceId := Nat

/-- A function of the host, which a program can find among its globals from the start. What it
answers is a matter of the host (`Answers`). -/
structure Native where
  /-- The global under which the function is found. -/
  name : String
  /-- How many arguments the function takes. -/
  arity : Nat
  deriving DecidableEq, Repr, Inhabited

namespace Native

/-- The reading of a clock, in seconds. -/
def clock : Native := ⟨"clock", 0⟩

/-- Its argument. -/
def identity : Native := ⟨"identity", 1⟩

/-- The second of its two arguments. -/
def second : Native := ⟨"second", 2⟩

/-- Nothing. -/
def nothing : Native := ⟨"nothing", 0⟩

/-- The functions of the usual host in the order of their declaration. -/
def all : List Native := [clock, identity, second, nothing]

end Native

/-- The values of a program. -/
inductive Value where
  | nil
  | bool (value : Bool)
  | number (value : Float)
  | text (value : String)
  | native (function : Native)
  | closure (id : ClosureId)
  | klass (id : ClassId)
  | object (id : InstanceId)
  deriving DecidableEq, Inhabited

/-- The value that a literal stands for. -/
def Literal.toValue : Literal → Value
  | nil => .nil
  | bool b => .bool b
  | number x => .number x
  | text s => .text s

/-- A function as a value: its text, and the frame around it. -/
structure Closure where
  routine : Routine Place
  home : FrameId
  /-- A call hands back the instance that `home` binds to `this`. -/
  isInitializer : Bool

/-- A class: its name, its superclass, and its own methods. -/
structure ClassRecord where
  name : String
  superclass : Option ClassId
  methods : List (String × ClosureId)

/-- An instance: its class and its fields. -/
structure Instance where
  klass : ClassId
  fields : List (String × Value)
  deriving Inhabited

/-- The state of a running program. -/
structure Machine where
  forest : Forest Value
  closures : Array Closure
  classes : Array ClassRecord
  instances : Array Instance
  /-- The frame in which names are looked up. -/
  current : FrameId
  /-- Everything printed so far. -/
  output : String
  /-- What the clock reads. -/
  clock : Float
  /-- The calls of functions of the host so far, latest first. -/
  calls : List (Native × List Value)

namespace Machine

/-- The frame of the globals. -/
def globals : FrameId := 0

/-- A machine that knows the given functions and nothing else. -/
def initial (natives : List Native) (clock : Float) : Machine where
  forest := natives.foldl (fun f n => f.define globals n.name (.native n)) (Forest.empty.push none)
  closures := #[]
  classes := #[]
  instances := #[]
  current := globals
  output := ""
  clock := clock
  calls := []

/-- Look for a method in at most `fuel` classes, from one upward. -/
def findMethodWithin (m : Machine) : Nat → ClassId → String → Option ClosureId
  | 0, _, _ => none
  | fuel + 1, id, name =>
    m.classes[id]?.bind fun c =>
      match c.methods.lookup name with
      | some closure => some closure
      | none => c.superclass.bind fun s => findMethodWithin m fuel s name

/-- The method that a class has under a name, its own or inherited. A superclass is older than its
subclasses, which bounds the search. -/
def findMethod? (m : Machine) (id : ClassId) (name : String) : Option ClosureId :=
  m.findMethodWithin (id + 1) id name

/-- Methods are found by looking at the classes alone. -/
theorem findMethod?_congr {m m' : Machine} (h : m'.classes = m.classes) (id : ClassId)
    (name : String) : m'.findMethod? id name = m.findMethod? id name := by
  have hwithin (fuel : Nat) (id : ClassId) :
      m'.findMethodWithin fuel id name = m.findMethodWithin fuel id name := by
    induction fuel generalizing id with
    | zero => rfl
    | succ fuel ih => rw [findMethodWithin, findMethodWithin, h, funext ih]
  exact hwithin _ _

/-- The name of a class. -/
def className (m : Machine) (id : ClassId) : String :=
  (m.classes[id]?.map ClassRecord.name).getD ""

/-- The text that `print` gives for a value. -/
def textOf (m : Machine) : Value → String
  | .nil => "nil"
  | .bool true => "true"
  | .bool false => "false"
  | .number x => NumberFormat.shown.write x
  | .text s => s
  | .native _ => "<native fn>"
  | .closure id => "<fn " ++ ((m.closures[id]?.map (·.routine.name.lexeme)).getD "") ++ ">"
  | .klass id => m.className id
  | .object id => ((m.instances[id]?.map (m.className ·.klass)).getD "") ++ " instance"

/-- The globals in the order of their names, with their texts. -/
def globalTexts (m : Machine) : List (String × String) :=
  (m.forest.sorted globals).map fun (name, value) => (name, m.textOf value)

end Machine

/-- What the functions of a host answer to arguments. They may look at the machine, and on it at
what they have been asked before, but not change it. -/
abbrev Answers := Machine → Native → List Value → Value

/-- The answers of the usual host. -/
def Answers.usual : Answers := fun m f values =>
  if f = .clock then .number m.clock
  else if f = .identity then values.headD .nil
  else if f = .second then values.tail.headD .nil
  else .nil

end LoxInterpreter
