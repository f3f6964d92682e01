import LoxInterpreter.Run.Failure

/-!
# Runs that take notes

A run takes notes beside the machine, so that more can be said of it than what the machine keeps.
Steps of the plain run are taken over as they are (`Noting.lift`), and leave the notes alone. What
is noted is up to the kind of notes: the parameter `σ`.

Notes make no difference to a run if its outcome without them (`Noting.bare`) is that of the plain
run.
-/

namespace LoxInterpreter

open Run

/-- The machine that a run leaves behind, however it ends. -/
def Run.machineAfter {α : Type} (act : Run α) (m : Machine) : Machine :=
  match act m with
  | .ok _ m' | .error _ m' => m'

namespace Run

variable {α β : Type} {act : Run α} {m m' : Machine}

theorem machineAfter_of_ok {a : α} (h : act m = .ok a m') : machineAfter act m = m' := by
  rw [machineAfter, h]

theorem machineAfter_of_error {e : Interruption} (h : act m = .error e m') :
    machineAfter act m = m' := by
  rw [machineAfter, h]

theorem bind_apply_of_ok {a : α} (h : act m = .ok a m') (f : α → Run β) :
    (act >>= f) m = f a m' := by
  show EStateM.bind act f m = _
  rw [EStateM.bind, h]

theorem bind_apply_of_error {e : Interruption} (h : act m = .error e m') (f : α → Run β) :
    (act >>= f) m = .error e m' := by
  show EStateM.bind act f m = _
  rw [EStateM.bind, h]

theorem machineAfter_bind_of_ok {a : α} (h : act m = .ok a m') (f : α → Run β) :
    machineAfter (act >>= f) m = machineAfter (f a) m' := by
  rw [machineAfter, bind_apply_of_ok h]
  rfl

theorem machineAfter_bind_of_error {e : Interruption} (h : act m = .error e m')
    (f : α → Run β) : machineAfter (act >>= f) m = m' :=
  machineAfter_of_error (bind_apply_of_error h f)

/-- A transitive relation between the machines before and after is kept by runs one after the
other. -/
theorem rel_machineAfter_bind (R : Machine → Machine → Prop)
    (htrans : ∀ {m m₁ m₂}, R m m₁ → R m₁ m₂ → R m m₂) (h : ∀ m, R m (machineAfter act m))
    {f : α → Run β} (hf : ∀ a m, R m (machineAfter (f a) m)) (m : Machine) :
    R m (machineAfter (act >>= f) m) := by
  have hact := h m
  cases heq : act m with
  | ok a m' =>
    rw [machineAfter_of_ok heq] at hact
    rw [machineAfter_bind_of_ok heq]
    exact htrans hact (hf a m')
  | error e m' =>
    rw [machineAfter_of_error heq] at hact
    rw [machineAfter_bind_of_error heq]
    exact hact

theorem machineAfter_inFrame (id : FrameId) (act : Run α) (m : Machine) :
    machineAfter (inFrame id act) m =
      { machineAfter act { m with current := id } with current := m.current } := by
  unfold machineAfter inFrame
  dsimp only
  cases act { m with current := id } <;> rfl

end Run

/-- A machine, and notes beside it. -/
structure Noted (σ : Type) where
  machine : Machine
  notes : σ

/-- Programs that yield an `α` and take notes. -/
abbrev Noting (σ α : Type) := EStateM Interruption (Noted σ) α

namespace Noting

variable {σ α β : Type}

/-- A step that notes nothing. -/
def lift (act : Run α) : Noting σ α := fun s =>
  match act s.machine with
  | .ok a m => .ok a { s with machine := m }
  | .error e m => .error e { s with machine := m }

/-- Do something in a frame, and come back to the current one however it ends. -/
def inside (id : FrameId) (act : Noting σ α) : Noting σ α := fun s =>
  let home := s.machine.current
  match act { s with machine := { s.machine with current := id } } with
  | .ok a s => .ok a { s with machine := { s.machine with current := home } }
  | .error e s => .error e { s with machine := { s.machine with current := home } }

/-- Take a note. -/
def note (f : Noted σ → σ) : Noting σ Unit := modify fun s => { s with notes := f s }

/-- The outcome without the notes. -/
def bare : EStateM.Result Interruption (Noted σ) α → EStateM.Result Interruption Machine α
  | .ok a s => .ok a s.machine
  | .error e s => .error e s.machine

/-- The machine and the notes in the end. -/
def last : EStateM.Result Interruption (Noted σ) α → Noted σ
  | .ok _ s | .error _ s => s

/-- A plain step takes the plain course. -/
theorem bare_lift (act : Run α) (s : Noted σ) : bare (lift act s) = act s.machine := by
  unfold lift
  cases act s.machine <;> rfl

/-- What comes after a plain step that comes to a value. -/
theorem lift_bind_of_eq_ok {act : Run α} {s : Noted σ} {a : α} {m : Machine}
    (h : act s.machine = .ok a m) (f : α → Noting σ β) :
    (lift act >>= f) s = f a { s with machine := m } := by
  show EStateM.bind (lift act) f s = _
  rw [EStateM.bind, lift, h]

/-- A plain step leaves the notes alone. -/
theorem last_lift (act : Run α) (s : Noted σ) :
    last (lift act s) = { s with machine := machineAfter act s.machine } := by
  unfold lift machineAfter
  cases act s.machine <;> rfl

end Noting

end LoxInterpreter
