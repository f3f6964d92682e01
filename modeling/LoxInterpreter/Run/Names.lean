import LoxInterpreter.Run.Failure

/-!
# Finding what a name means

There are two ways from a mention of a name to its binding. `Names.byDistance` goes where the link
of the mention says, and is what programs run with. `Names.bySearch` ignores the link and searches
outward from the current frame: the plain meaning of nested frames, by which distances can be
judged.
-/

namespace LoxInterpreter.Run

/-- A way to read and to change what a name is bound to. -/
structure Names where
  read : Reference Place → Run Value
  write : Reference Place → Value → Run Unit

/-- Read the nearest binding of a name, from a frame outward. -/
def readFrom (id : FrameId) (name : Token) : Run Value := do
  match (← get).forest.get? id name.lexeme with
  | some value => return value
  | none => failAt name (.undefinedVariable name.lexeme)

/-- Change the nearest binding of a name, from a frame outward. -/
def assignFrom (id : FrameId) (name : Token) (value : Value) : Run Unit := do
  match (← get).forest.holder? id name.lexeme with
  | some holder => define holder name.lexeme value
  | none => failAt name (.undefinedVariable name.lexeme)

/-- Read what the frame at a distance from the current one binds a name to. -/
def readAt (distance : Nat) (name : String) : Run Value := do
  let m ← get
  match m.forest.getAt m.current distance name with
  | .ok value => return value
  | .error e => faultWith (.access e)

/-- Change what the frame at a distance from the current one binds a name to. -/
def assignAt (distance : Nat) (name : Token) (value : Value) : Run Unit := do
  let m ← get
  match m.forest.holderAt m.current distance name.lexeme with
  | .ok holder => define holder name.lexeme value
  | .error (.offChain d) => faultWith (.access (.offChain d))
  | .error (.unbound _) => faultWith (.unassignable name)

/-- Go where the link says. -/
def Names.byDistance : Names where
  read r :=
    match r.link with
    | .global => readFrom Machine.globals r.token
    | .outward distance => readAt distance r.name
  write r value :=
    match r.link with
    | .global => assignFrom Machine.globals r.token value
    | .outward distance => assignAt distance r.token value

/-- Search outward from the current frame. -/
def Names.bySearch : Names where
  read r := do readFrom (← get).current r.token
  write r value := do assignFrom (← get).current r.token value

end LoxInterpreter.Run
