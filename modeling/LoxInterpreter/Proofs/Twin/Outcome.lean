import LoxInterpreter.Proofs.Twin.Evaluation

/-!
# What a run comes to

`Outcome` is what can be told of a run from outside: the output, the globals with their texts, and
why the run ended early, if it did. Twin programs that are run on fresh machines come to the same,
up to the guise of a token that is to blame (`twins_outcome`).
-/

namespace LoxInterpreter

variable {G : Guise}

/-! ### Fresh machines -/

/-- Before anything is known, there is a frame for the globals on each side. -/
def Pairing.bare (clock : Float) : Pairing :=
  ⟨Machine.initial [] clock, Machine.initial [] clock, [(Machine.globals, .refl String)]⟩

theorem Pairing.here_bare (clock : Float) : (bare clock).Here G [] := by
  have hbindings (f : FrameId) : (bare clock).left.forest.bindingsOf f = [] := by
    show (Forest.empty.push none : Forest Value).bindingsOf f = []
    rw [Forest.bindingsOf_push]
    rfl
  have hzero {f f' : FrameId} {σ : Equiv.Perm String} (hf : (bare clock).Partners f f' σ) :
      f = 0 ∧ f' = 0 ∧ σ = .refl String := by
    replace hf : [(Machine.globals, Equiv.refl String)][f]? = some (f', σ) := hf
    cases f with
    | zero =>
      cases hf
      exact ⟨rfl, rfl, rfl⟩
    | succ f => cases hf
  have hmatched : (bare clock).Matched := by
    refine ⟨rfl, rfl, fun f f' σ hf => ?_, fun f g f' σ τ hf hg => ?_, fun f f' σ hf => ?_⟩
    · obtain ⟨-, rfl, -⟩ := hzero hf
      exact Nat.one_pos
    · exact (hzero hf).1.trans (hzero hg).1.symm
    · obtain ⟨rfl, rfl, rfl⟩ := hzero hf
      rfl
  refine ⟨⟨hmatched, .refl _, rfl, fun f x v hx => ?_, fun id i x v hi _ => ?_,
    fun f vs v hf _ => ?_, fun id c x k hc _ => ?_⟩, rfl, rfl⟩
  · rw [hbindings] at hx
    cases hx
  · cases hi
  · cases hf
  · cases hc

/-- The same globals may be bound on both sides. -/
theorem Pairing.Here.define_natives {p : Pairing} (h : p.Here G []) (natives : List Native) :
    (p.set
      { p.left with
        forest := natives.foldl (fun f n => f.define Machine.globals n.name (.native n))
          p.left.forest }
      { p.right with
        forest := natives.foldl (fun f n => f.define Machine.globals n.name (.native n))
          p.right.forest }).Here G [] := by
  induction natives generalizing p with
  | nil => exact h
  | cons n rest ih =>
    have hq : p.Follows G (p.define Machine.globals Machine.globals n.name n.name (.native n)) :=
      Pairing.follows_define h.sound h.sound.matched.globals trivial
    exact ih (h.follow hq)

/-- Two fresh machines are twins. -/
theorem Pairing.exists_initial (natives : List Native) (clock : Float) :
    ∃ p : Pairing, p.left = Machine.initial natives clock ∧
      p.right = Machine.initial natives clock ∧ p.Here G [] :=
  ⟨_, rfl, rfl, (here_bare clock).define_natives natives⟩

/-! ### Outcomes -/

namespace Run

/-- What can be told of a run from outside. -/
structure Outcome where
  /-- Everything printed. -/
  output : String
  /-- The globals in the order of their names, with their texts. -/
  globals : List (String × String)
  /-- Why the run ended early. -/
  ending : Option Interruption
  deriving DecidableEq

/-- What a run comes to. -/
def Outcome.of {α : Type} : EStateM.Result Interruption Machine α → Outcome
  | .ok _ m => ⟨m.output, m.globalTexts, none⟩
  | .error e m => ⟨m.output, m.globalTexts, some e⟩

/-- What a program comes to that is run on a fresh machine. -/
def outcome (answers : Answers) (natives : List Native) (clock : Float) (limits : Limits)
    (program : List (Stmt Place)) : Outcome :=
  .of (interpret (limits.hostBy .byDistance answers) program (.initial natives clock))

/-- The same can be told of both runs, but for the guise of the token that is to blame. -/
structure Outcome.Twins (G : Guise) (o o' : Outcome) : Prop where
  output : o'.output = o.output
  globals : o'.globals = o.globals
  ending : Option.Rel (Interruption.Twins G) o.ending o'.ending

/-- Runs in step come to the same. -/
theorem Lead.twins_outcome {α α' : Type} {p : Pairing} {Q : Pairing → α → α' → Prop}
    {result : EStateM.Result Interruption Machine α}
    {result' : EStateM.Result Interruption Machine α'} (h : Lead G p Q result result') :
    (Outcome.of result).Twins G (.of result') := by
  cases h with
  | ok q hq _ => exact ⟨hq.sound.looksLike.output, hq.sound.globalTexts_eq, .none⟩
  | error q hq he => exact ⟨hq.sound.looksLike.output, hq.sound.globalTexts_eq, .some he⟩

/-- **Twin programs come to the same.** -/
theorem twins_outcome {answers : Answers} (honest : answers.Honest) (settled : answers.Settled)
    (natives : List Native) (clock : Float) (limits : Limits)
    {program program' : List (Stmt Place)} (h : Stmt.BodyTwins G [] program program') :
    (outcome answers natives clock limits program).Twins G
      (outcome answers natives clock limits program') := by
  obtain ⟨p, hleft, hright, hhere⟩ := Pairing.exists_initial (G := G) natives clock
  have hrun := inStep_interpret (twins_hostBy honest settled limits) hhere h
  rw [InStep, hleft, hright] at hrun
  exact hrun.twins_outcome

end Run

/-! ### No guise -/

/-- Tokens look the same. -/
def Guise.plain : Guise := ⟨fun t t' => t' = t, fun h => congrArg Token.kind h⟩

/-- Without a guise, reasons to end early that are twins are equal. -/
theorem Interruption.Twins.eq {e e' : Interruption} (h : e.Twins .plain e') : e' = e := by
  cases h with
  | failure cause ht =>
    cases ht
    rfl
  | exhausted => rfl
  | fault hwhat =>
    cases hwhat with
    | same => rfl
    | unbound ht | unassignable ht | badOperator ht =>
      cases ht
      rfl

/-- Without a guise, twins are equal. -/
theorem Run.Outcome.Twins.eq {o o' : Run.Outcome} (h : o.Twins .plain o') : o' = o := by
  obtain ⟨output, globals, ending⟩ := o
  obtain ⟨output', globals', ending'⟩ := o'
  obtain ⟨rfl, rfl, hending⟩ := h
  congr 1
  cases hending with
  | none => rfl
  | some he => exact congrArg some he.eq

end LoxInterpreter
