import LoxInterpreter.Parse.Statement
import LoxInterpreter.Proofs.Run.Current

/-!
# What a `for` statement means

There is no node for the `for` loop in a tree: the parser writes it with `while` and blocks
(`ForLoop.tree`), with more or fewer of them according to the clauses that are there. Here is what
the loop means without that detour. It opens one scope, whatever its clauses are, and all of its
parts are in that scope (`ForLoop.link`). The initializer runs once. From then on each round
evaluates the condition, executes the body and evaluates the increment (`ForLoop.rounds`), all in the
frame that was made at the start.
-/

namespace LoxInterpreter

/-- Where the steps in a frame leave it alone, they may be done one by one there. -/
theorem Run.inFrame_bind {α β : Type} (id : FrameId) {act : Run α} (h : Homing act)
    (f : α → Run β) : inFrame id (act >>= f) = inFrame id act >>= fun a => inFrame id (f a) := by
  funext m
  have hback := h { m with current := id }
  unfold machineAfter at hback
  cases hact : act { m with current := id } with
  | ok a m' =>
    rw [hact] at hback
    obtain rfl : m'.current = id := hback
    have hstep : inFrame m'.current act m = .ok a { m' with current := m.current } := by
      rw [inFrame, hact]
    rw [bind_apply_of_ok hstep, inFrame, inFrame, bind_apply_of_ok hact]
  | error e m' =>
    have hstep : inFrame id act m = .error e { m' with current := m.current } := by
      rw [inFrame, hact]
    rw [bind_apply_of_error hstep, inFrame, bind_apply_of_error hact]

/-- The parts of a `for` statement. All clauses may be missing. -/
structure ForLoop (ρ : Type) where
  initializer : Option (Stmt ρ)
  condition : Option (Expr ρ)
  increment : Option (Expr ρ)
  body : Stmt ρ

namespace ForLoop

/-- What a parser makes of the parts. -/
def tree (l : ForLoop Blank) : Stmt Blank :=
  Parse.forLoop l.initializer l.condition l.increment l.body

/-- The one scope of the loop, which holds what the initializer declares, and those around it. -/
def inside (l : ForLoop Blank) (scopes : Scopes) : Scopes :=
  match l.initializer with
  | some s => Scopes.enter ([] :: scopes) s
  | none => [] :: scopes

/-- Fill in the links of all parts, which are in the scope of the loop. -/
def link (l : ForLoop Blank) (scopes : Scopes) : ForLoop Place where
  initializer := l.initializer.map (Stmt.link (l.inside scopes))
  condition := l.condition.map (Expr.link (l.inside scopes))
  increment := l.increment.map (Expr.link (l.inside scopes))
  body := l.body.link (l.inside scopes)

/-! ### Running it -/

section Run

open Run

variable (host : Host) (l : ForLoop Place)

/-- Run the initializer. -/
def start : Run Completion :=
  match l.initializer with
  | none => return .normal
  | some s => execute host s

/-- Whether to go round once more. A missing condition counts as true. -/
def goesOn : Run Bool :=
  match l.condition with
  | none => return true
  | some e => do return (← evaluate host e).truthy

/-- Evaluate the increment. -/
def advance : Run Unit :=
  match l.increment with
  | none => return ()
  | some e => do let _ ← evaluate host e

/-- The body, and then the increment, unless the body returned. -/
def round (frame : FrameId) : Run Completion := do
  match ← inFrame frame (execute host l.body) with
  | .normal =>
    inFrame frame (l.advance host)
    return .normal
  | .returning value => return .returning value

/-- Go round as long as the condition says so, and no more often than that. -/
def rounds (frame : FrameId) : Nat → Run Completion
  | 0 => throw .exhausted
  | n + 1 => do
    if ← inFrame frame (l.goesOn host) then
      match ← l.round host frame with
      | .normal => rounds frame n
      | .returning value => return .returning value
    else return .normal

/-- **The meaning of a `for` statement.** There is one frame for all rounds. -/
def run : Run Completion := do
  let frame ← newFrame (← get).current
  match ← inFrame frame (l.start host) with
  | .normal => l.rounds host frame host.rounds
  | .returning value => return .returning value

/-- The frames that the body is executed in if it is a block: in each round, the next one to be
made. -/
def roundFrames (frame : FrameId) : Nat → Machine → List FrameId
  | 0, _ => []
  | n + 1, m =>
    match inFrame frame (l.goesOn host) m with
    | .ok true m =>
      m.forest.nextId ::
        match l.round host frame m with
        | .ok .normal m => roundFrames frame n m
        | _ => []
    | _ => []

/-- Those of a whole run, which makes the frame of the loop first. -/
def bodyFrames (m : Machine) : List FrameId :=
  let frame := m.forest.nextId
  match inFrame frame (l.start host) { m with forest := m.forest.push (some m.current) } with
  | .ok .normal m => l.roundFrames host frame host.rounds m
  | _ => []

section

variable {host l} {m m' : Machine}
  (h : inFrame m.forest.nextId (l.start host)
    { m with forest := m.forest.push (some m.current) } = .ok .normal m')

include h

/-- After the initializer the loop goes round. -/
theorem run_apply_of_start : l.run host m = l.rounds host m.forest.nextId host.rounds m' := by
  show (inFrame m.forest.nextId (l.start host) >>= _) { m with forest := _ } = _
  rw [bind_apply_of_ok h]

theorem bodyFrames_of_start :
    l.bodyFrames host m = l.roundFrames host m.forest.nextId host.rounds m' := by
  rw [bodyFrames, h]

end

/-! ### In the frame of the loop -/

/-- What comes after the body. -/
def conclude : Completion → Run Completion
  | .normal => do
    l.advance host
    return .normal
  | .returning value => return .returning value

/-- A round, in whatever frame the run is. -/
def turn : Run Completion := do l.conclude host (← execute host l.body)

variable {host l}

theorem homing_goesOn (h : host.Homing) : Homing (l.goesOn host) := by
  unfold goesOn
  split
  · exact .pure _
  · exact .bind (homing_evaluate h _) fun _ => .pure _

theorem homing_advance (h : host.Homing) : Homing (l.advance host) := by
  unfold advance
  split
  · exact .pure _
  · exact .bind (homing_evaluate h _) fun _ => .pure _

theorem homing_start (h : host.Homing) : Homing (l.start host) := by
  unfold start
  split
  · exact .pure _
  · exact homing_execute h _

theorem homing_turn (h : host.Homing) : Homing (l.turn host) := by
  refine .bind (homing_execute h _) fun c => ?_
  cases c with
  | normal => exact .bind (homing_advance h) fun _ => .pure _
  | returning value => exact .pure _

theorem round_eq (h : host.Homing) (frame : FrameId) :
    l.round host frame = inFrame frame (l.turn host) := by
  rw [round, turn, inFrame_bind frame (homing_execute h _)]
  refine congrArg _ (funext fun c => ?_)
  cases c with
  | normal => exact (inFrame_bind frame (homing_advance h) fun _ => pure Completion.normal).symm
  | returning value => rfl

theorem rounds_eq (h : host.Homing) (frame : FrameId) (n : Nat) :
    l.rounds host frame n = inFrame frame (repeatWhile (l.goesOn host) (l.turn host) n) := by
  induction n with
  | zero => rfl
  | succ n ih =>
    rw [rounds, repeatWhile, inFrame_bind frame (homing_goesOn h)]
    refine congrArg _ (funext fun goesOn => ?_)
    cases goesOn with
    | false => rfl
    | true =>
      have hround := inFrame_bind frame (homing_turn (l := l) h) fun c =>
        match c with
        | .normal => repeatWhile (l.goesOn host) (l.turn host) n
        | .returning value => pure (.returning value)
      refine Eq.trans ?_ hround.symm
      rw [← round_eq h]
      refine congrArg (l.round host frame >>= ·) (funext fun c => ?_)
      cases c with
      | normal => exact ih
      | returning value => rfl

/-- The whole loop in its frame. -/
theorem run_eq (h : host.Homing) :
    l.run host = (do
      let frame ← newFrame (← get).current
      inFrame frame do
        match ← l.start host with
        | .normal => repeatWhile (l.goesOn host) (l.turn host) host.rounds
        | .returning value => return .returning value) := by
  rw [run]
  refine congrArg (get >>= ·) (funext fun m => ?_)
  refine congrArg (newFrame m.current >>= ·) (funext fun frame => ?_)
  rw [inFrame_bind frame (homing_start h)]
  refine congrArg _ (funext fun c => ?_)
  cases c with
  | normal => exact rounds_eq h frame _
  | returning value => rfl

end Run

end ForLoop

end LoxInterpreter
