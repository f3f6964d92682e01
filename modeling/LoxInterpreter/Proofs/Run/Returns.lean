import LoxInterpreter.Proofs.Run.Notes
import LoxInterpreter.Run.Evaluate

/-!
# What a `return` does to the code around it

The statements of one activation are executed here with a diary, in which every statement and every
condition is entered when it is begun, with the machine as it was then. What is called in between
keeps no diary: the host runs it.

The diary makes no difference to the run, and it shows what a `return` does (`orderly_execute`,
`orderly_executeAll`). A statement carries on if no `return` has been begun. It hands a value back
if the last entry is a `return` that stands in it, outside of nested routines; the value is the one
of that `return`, and nothing has been begun or has happened since.
-/

namespace LoxInterpreter

open Run Noting

/-- The value that the body of a function comes to, which is `nil` if it hands none back. -/
def Completion.value : Completion → Value
  | normal => .nil
  | returning value => value

/-- What a call of a closure hands back after its body. -/
def Run.resultOf (c : Closure) (completion : Completion) : Run Value := do
  if c.isInitializer then
    match (← get).forest.getAt c.home 0 "this" with
    | .ok receiver => return receiver
    | .error e => faultWith (.access e)
  else
    match completion with
    | .normal => return .nil
    | .returning value => return value

/-- A closure that is no initializer hands back what its body comes to. -/
theorem Run.resultOf_eq_pure {c : Closure} (h : c.isInitializer = false) (completion : Completion) :
    resultOf c completion = pure completion.value := by
  unfold resultOf
  rw [if_neg (Bool.eq_false_iff.mp h)]
  cases completion <;> rfl

/-! ### Where `return` stands -/

namespace Stmt

mutual

/-- The `return` statements in a statement, with their values. Those in a routine that is declared
there are not among them. -/
def giveBacks : Stmt Place → List (Token × Option (Expr Place))
  | .giveBack keyword value => [(keyword, value)]
  | .block body => giveBacksIn body
  | .branch _ whenTrue none => whenTrue.giveBacks
  | .branch _ whenTrue (some whenFalse) => whenTrue.giveBacks ++ whenFalse.giveBacks
  | .loop _ body => body.giveBacks
  | .malformed | .expression _ | .print _ | .declare _ _ | .function _ | .klass _ _ _ => []

/-- The `return` statements in consecutive statements. -/
def giveBacksIn : List (Stmt Place) → List (Token × Option (Expr Place))
  | [] => []
  | s :: rest => s.giveBacks ++ giveBacksIn rest

end

end Stmt

/-- Go on if the statement before carries on. -/
def Run.andThen (act rest : Run Completion) : Run Completion := do
  match ← act with
  | .normal => rest
  | .returning value => return .returning value

/-- The run hands no value back. -/
def Run.CarriesOn (act : Run Completion) : Prop := ∀ m v m', act m ≠ .ok (.returning v) m'

theorem Run.CarriesOn.pure : CarriesOn (pure .normal) := fun _ _ _ h => nomatch h

theorem Run.CarriesOn.bind {α : Type} {act : Run α} {f : α → Run Completion}
    (h : ∀ a, CarriesOn (f a)) : CarriesOn (act >>= f) := by
  intro m v m'
  show EStateM.bind act f m ≠ _
  rw [EStateM.bind]
  cases act m with
  | ok a m₁ => exact h a m₁ v m'
  | error e m₁ => exact nofun

/-! ### Diaries -/

/-- What an activation has begun, and the machine as it was then. -/
inductive Diary.Entry where
  | statement (s : Stmt Place) (m : Machine)
  | condition (e : Expr Place) (m : Machine)

/-- The entry is a `return`. -/
def Diary.Entry.IsReturn : Diary.Entry → Prop
  | statement (.giveBack _ _) _ => True
  | statement _ _ | condition _ _ => False

/-- The entries of an activation, latest first. -/
abbrev Diary := List Diary.Entry

/-- Programs that keep a diary. -/
abbrev Logged (α : Type) := Noting Diary α

namespace Logged

variable {α : Type}

/-- Enter what is begun. -/
def enter (entry : Machine → Diary.Entry) : Logged Unit :=
  note fun s => entry s.machine :: s.notes

/-- Go on if the statement before carries on. -/
def andThen (act rest : Logged Completion) : Logged Completion := do
  match ← act with
  | .normal => rest
  | .returning value => return .returning value

/-- Evaluate a condition. -/
def evaluate (host : Host) (condition : Expr Place) : Logged Value := do
  enter (.condition condition)
  lift (Run.evaluate host condition)

/-- Go round as long as the test says so and the body carries on. -/
def repeatWhile (test : Logged Bool) (body : Logged Completion) : Nat → Logged Completion
  | 0 => throw .exhausted
  | rounds + 1 => do
    if ← test then andThen body (repeatWhile test body rounds) else return .normal

mutual

/-- Execute a statement and keep a diary. -/
def execute (host : Host) (s : Stmt Place) : Logged Completion := do
  enter (.statement s)
  match s with
  | .block body => do
    let frame ← lift (newFrame (← get).machine.current)
    inside frame (executeAll host body)
  | .branch condition whenTrue none => do
    if (← evaluate host condition).truthy then execute host whenTrue else return .normal
  | .branch condition whenTrue (some whenFalse) => do
    if (← evaluate host condition).truthy then execute host whenTrue else execute host whenFalse
  | .loop condition body =>
    repeatWhile (do return (← evaluate host condition).truthy) (execute host body) host.rounds
  | s => lift (Run.execute host s)

/-- Execute statements in order, up to one that returns. -/
def executeAll (host : Host) : List (Stmt Place) → Logged Completion
  | [] => return .normal
  | s :: rest => andThen (execute host s) (executeAll host rest)

end

/-! ### What a diary shows -/

/-- Of the new entries at most the latest is a `return`. It is one if a value is handed back: it is
one of the given `return` statements then, the value is its own, and the machine is as it was when
the value was found, but for the current frame. -/
def Ends (host : Host) (returns : List (Token × Option (Expr Place))) (new : Diary) :
    EStateM.Result Interruption (Noted Diary) Completion → Prop
  | .ok .normal _ => ∀ entry ∈ new, ¬entry.IsReturn
  | .ok (.returning v) d => ∃ keyword value m before m', (keyword, value) ∈ returns ∧
      new = .statement (.giveBack keyword value) m :: before ∧
      (∀ entry ∈ before, ¬entry.IsReturn) ∧ evaluateOptional host value m = .ok v m' ∧
      { d.machine with current := m'.current } = m'
  | .error _ _ => ∀ entry ∈ new.tail, ¬entry.IsReturn

/-- **The diary is in order.** It makes no difference to the run, and its new entries end as they
should. -/
def Orderly (host : Host) (returns : List (Token × Option (Expr Place))) (act : Run Completion)
    (logged : Logged Completion) : Prop :=
  ∀ d, bare (logged d) = act d.machine ∧
    ∃ new, (last (logged d)).notes = new ++ d.notes ∧ Ends host returns new (logged d)

/-- The diary makes no difference to the run, and no `return` is entered. -/
def Silent (act : Run α) (logged : Logged α) : Prop :=
  ∀ d, bare (logged d) = act d.machine ∧
    ∃ new, (last (logged d)).notes = new ++ d.notes ∧ ∀ entry ∈ new, ¬entry.IsReturn

section Rules

variable {host : Host} {returns returns' : List (Token × Option (Expr Place))} {act : Run α}
  {logged : Logged α} {f : α → Run Completion} {logged' : α → Logged Completion}

theorem silent_lift (act : Run α) : Silent act (lift act) := by
  refine fun d => ⟨bare_lift act d, [], ?_, List.forall_mem_nil _⟩
  rw [last_lift]
  rfl

/-- What ends well after silent steps ends well. -/
theorem Ends.append {new before : Diary}
    {outcome : EStateM.Result Interruption (Noted Diary) Completion}
    (h : Ends host returns new outcome) (hbefore : ∀ entry ∈ before, ¬entry.IsReturn) :
    Ends host returns (new ++ before) outcome := by
  cases outcome with
  | ok c d =>
    cases c with
    | normal => exact List.forall_mem_append.mpr ⟨h, hbefore⟩
    | returning v =>
      obtain ⟨keyword, value, m, rest, m', hmem, rfl, hrest, hvalue⟩ := h
      exact ⟨keyword, value, m, rest ++ before, m', hmem, rfl,
        List.forall_mem_append.mpr ⟨hrest, hbefore⟩, hvalue⟩
  | error e d =>
    intro entry hentry
    cases new with
    | nil => exact hbefore entry (List.mem_of_mem_tail hentry)
    | cons latest new => exact List.forall_mem_append.mpr ⟨h, hbefore⟩ entry hentry

/-- A silent step comes before others. -/
theorem Silent.bind (h : Silent act logged) (hf : ∀ a, Orderly host returns (f a) (logged' a)) :
    Orderly host returns (act >>= f) (logged >>= logged') := by
  intro d
  obtain ⟨hbare, new, hentries, hsilent⟩ := h d
  have hbind : (act >>= f) d.machine = EStateM.bind act f d.machine := rfl
  have hbind' : (logged >>= logged') d = EStateM.bind logged logged' d := rfl
  rw [hbind, hbind', EStateM.bind, EStateM.bind, ← hbare]
  cases hlogged : logged d with
  | ok a d' =>
    rw [hlogged] at hentries
    obtain ⟨hbare', new', hentries', hends⟩ := hf a d'
    refine ⟨hbare', new' ++ new, ?_, hends.append hsilent⟩
    rw [List.append_assoc]
    exact hentries'.trans (congrArg _ hentries)
  | error e d' =>
    rw [hlogged] at hentries
    exact ⟨rfl, new, hentries, fun entry hentry => hsilent entry (List.mem_of_mem_tail hentry)⟩

/-- Less may be said of where the `return` stands. -/
theorem Orderly.mono {act : Run Completion} {logged : Logged Completion}
    (h : Orderly host returns act logged) (hsubset : returns ⊆ returns') :
    Orderly host returns' act logged := by
  intro d
  obtain ⟨hbare, new, hentries, hends⟩ := h d
  refine ⟨hbare, new, hentries, ?_⟩
  cases hlogged : logged d with
  | ok c d' =>
    rw [hlogged] at hends
    cases c with
    | normal => exact hends
    | returning v =>
      obtain ⟨keyword, value, m, before, m', hmem, hrest⟩ := hends
      exact ⟨keyword, value, m, before, m', hsubset hmem, hrest⟩
  | error e d' =>
    rw [hlogged] at hends
    exact hends

/-- Nothing comes after a `return`. -/
theorem orderly_andThen {act rest : Run Completion} {logged logged' : Logged Completion}
    (h : Orderly host returns act logged) (hrest : Orderly host returns rest logged') :
    Orderly host returns (Run.andThen act rest) (andThen logged logged') := by
  intro d
  obtain ⟨hbare, new, hentries, hends⟩ := h d
  unfold Run.andThen andThen
  show bare (EStateM.bind logged _ d) = EStateM.bind act _ d.machine ∧
    ∃ new, (last (EStateM.bind logged _ d)).notes = _ ∧
      Ends host returns new (EStateM.bind logged _ d)
  rw [EStateM.bind, EStateM.bind, ← hbare]
  cases hlogged : logged d with
  | ok c d' =>
    rw [hlogged] at hentries hends
    cases c with
    | normal =>
      obtain ⟨hbare', new', hentries', hends'⟩ := hrest d'
      refine ⟨hbare', new' ++ new, ?_, hends'.append hends⟩
      rw [List.append_assoc]
      exact hentries'.trans (congrArg _ hentries)
    | returning v => exact ⟨rfl, new, hentries, hends⟩
  | error e d' =>
    rw [hlogged] at hentries hends
    exact ⟨rfl, new, hentries, hends⟩

theorem orderly_pure : Orderly host returns (pure .normal) (pure .normal) :=
  fun _ => ⟨rfl, [], rfl, List.forall_mem_nil _⟩

/-- What is entered first comes last in the diary. -/
theorem orderly_enter {entry : Machine → Diary.Entry} (hentry : ∀ m, ¬(entry m).IsReturn)
    {act : Run Completion} {logged : Unit → Logged Completion}
    (h : Orderly host returns act (logged ())) :
    Orderly host returns act (enter entry >>= logged) := by
  intro d
  obtain ⟨hbare, new, hentries, hends⟩ := h { d with notes := entry d.machine :: d.notes }
  refine ⟨hbare, new ++ [entry d.machine], ?_, hends.append (by simp [hentry])⟩
  rw [List.append_assoc]
  exact hentries

/-- A step that only carries on ends like a silent one. -/
theorem orderly_lift {act : Run Completion} (h : act.CarriesOn) :
    Orderly host returns act (lift act) := by
  intro d
  obtain ⟨hbare, new, hentries, hsilent⟩ := silent_lift act d
  refine ⟨hbare, new, hentries, ?_⟩
  cases hlift : lift act d with
  | ok c d' =>
    cases c with
    | normal => exact hsilent
    | returning v =>
      rw [hlift] at hbare
      exact absurd hbare.symm (h _ v _)
  | error e d' => exact fun entry hentry => hsilent entry (List.mem_of_mem_tail hentry)

/-- A `return` enters itself, and ends with its value. -/
theorem orderly_giveBack (keyword : Token) (value : Option (Expr Place)) :
    Orderly host [(keyword, value)] (Run.execute host (.giveBack keyword value)) (do
      enter (.statement (.giveBack keyword value))
      lift (Run.execute host (.giveBack keyword value))) := by
  intro d
  unfold Run.execute
  show bare (lift (EStateM.bind _ _) _) = EStateM.bind _ _ _ ∧
    ∃ new, (last (lift (EStateM.bind _ _) _)).notes = _ ∧ Ends _ _ new (lift (EStateM.bind _ _) _)
  unfold lift
  rw [EStateM.bind]
  dsimp only
  cases hvalue : evaluateOptional host value d.machine with
  | ok v m =>
    exact ⟨rfl, [.statement (.giveBack keyword value) d.machine], rfl, keyword, value, d.machine,
      [], m, List.mem_singleton_self _, rfl, List.forall_mem_nil _, hvalue, rfl⟩
  | error e m =>
    exact ⟨rfl, [.statement (.giveBack keyword value) d.machine], rfl, List.forall_mem_nil _⟩

/-- A condition is evaluated silently. -/
theorem silent_evaluate (condition : Expr Place) :
    Silent (Run.evaluate host condition) (evaluate host condition) := by
  intro d
  obtain ⟨hbare, new, hentries, hsilent⟩ := silent_lift (Run.evaluate host condition)
    { d with notes := .condition condition d.machine :: d.notes }
  refine ⟨hbare, new ++ [.condition condition d.machine], ?_, ?_⟩
  · rw [List.append_assoc]
    exact hentries
  · exact List.forall_mem_append.mpr ⟨hsilent, List.forall_mem_singleton.mpr id⟩

/-- So is its truth. -/
theorem Silent.truthy {act : Run Value} {logged : Logged Value} (h : Silent act logged) :
    Silent (do return (← act).truthy) (do return (← logged).truthy) := by
  intro d
  obtain ⟨hbare, new, hentries, hsilent⟩ := h d
  show bare (EStateM.bind logged _ d) = EStateM.bind act _ d.machine ∧
    ∃ new, (last (EStateM.bind logged _ d)).notes = _ ∧ _
  rw [EStateM.bind, EStateM.bind, ← hbare]
  cases hlogged : logged d with
  | ok v d' | error e d' =>
    rw [hlogged] at hentries
    exact ⟨rfl, new, hentries, hsilent⟩

theorem orderly_inside (id : FrameId) {act : Run Completion} {logged : Logged Completion}
    (h : Orderly host returns act logged) :
    Orderly host returns (Run.inFrame id act) (inside id logged) := by
  intro d
  obtain ⟨hbare, new, hentries, hends⟩ := h { d with machine := { d.machine with current := id } }
  unfold Run.inFrame inside
  dsimp only at hbare ⊢
  rw [← hbare]
  cases hlogged : logged { d with machine := { d.machine with current := id } } with
  | ok c d' =>
    rw [hlogged] at hentries hends
    refine ⟨rfl, new, hentries, ?_⟩
    cases c with
    | normal => exact hends
    | returning v => exact hends
  | error e d' =>
    rw [hlogged] at hentries hends
    exact ⟨rfl, new, hentries, hends⟩

theorem orderly_repeatWhile {test : Run Bool} {body : Run Completion} {test' : Logged Bool}
    {body' : Logged Completion} (htest : Silent test test')
    (hbody : Orderly host returns body body') (rounds : Nat) :
    Orderly host returns (Run.repeatWhile test body rounds) (repeatWhile test' body' rounds) := by
  induction rounds with
  | zero => exact fun _ => ⟨rfl, [], rfl, List.forall_mem_nil _⟩
  | succ rounds ih =>
    refine htest.bind fun goesOn => ?_
    cases goesOn with
    | false => exact orderly_pure
    | true => exact orderly_andThen hbody ih

mutual

/-- **A statement** keeps its diary in order. -/
theorem orderly_execute (s : Stmt Place) :
    Orderly host s.giveBacks (Run.execute host s) (execute host s) := by
  rw [execute.eq_def]
  match s with
  | .malformed => exact orderly_enter (fun _ => id) (orderly_lift (.pure))
  | .expression value =>
    exact orderly_enter (fun _ => id) (orderly_lift (.bind fun _ => .pure))
  | .print value =>
    exact orderly_enter (fun _ => id)
      (orderly_lift (.bind fun _ => .bind fun _ => .bind fun _ => .pure))
  | .declare name initial =>
    exact orderly_enter (fun _ => id)
      (orderly_lift (.bind fun _ => .bind fun _ => .bind fun _ => .pure))
  | .function routine =>
    exact orderly_enter (fun _ => id)
      (orderly_lift (.bind fun _ => .bind fun _ => .bind fun _ => .pure))
  | .klass name superclass methods =>
    exact orderly_enter (fun _ => id) (orderly_lift (.bind fun _ => .pure))
  | .giveBack keyword value => exact orderly_giveBack keyword value
  | .block body =>
    refine orderly_enter (fun _ => id) ?_
    have hframe (home : FrameId) := (silent_lift (newFrame home)).bind fun frame =>
      orderly_inside frame (orderly_executeAll body)
    exact fun d => hframe d.machine.current d
  | .branch condition whenTrue none =>
    refine orderly_enter (fun _ => id) ((silent_evaluate condition).bind fun v => ?_)
    split
    · exact orderly_execute whenTrue
    · exact orderly_pure
  | .branch condition whenTrue (some whenFalse) =>
    refine orderly_enter (fun _ => id) ((silent_evaluate condition).bind fun v => ?_)
    split
    · exact (orderly_execute whenTrue).mono (List.subset_append_left _ _)
    · exact (orderly_execute whenFalse).mono (List.subset_append_right _ _)
  | .loop condition body =>
    exact orderly_enter (fun _ => id)
      (orderly_repeatWhile (silent_evaluate condition).truthy (orderly_execute body) host.rounds)

/-- **Consecutive statements** keep their diary in order. -/
theorem orderly_executeAll (body : List (Stmt Place)) :
    Orderly host (Stmt.giveBacksIn body) (Run.executeAll host body) (executeAll host body) := by
  match body with
  | [] => exact orderly_pure
  | s :: rest =>
    exact orderly_andThen ((orderly_execute s).mono (List.subset_append_left _ _))
      ((orderly_executeAll rest).mono (List.subset_append_right _ _))

end

end Rules

/-! ### Calls -/

/-- Run the body of a closure in a new frame and keep a diary of it. -/
def runClosure (host : Host) (id : ClosureId) (values : List Value) : Logged Value := do
  let c ← lift (expectSome (← get).machine.closures[id]?)
  let frame ← lift (newFrame c.home)
  lift (bindParams frame c.routine.params values)
  let completion ← inside frame (executeAll host c.routine.body)
  lift (resultOf c completion)

/-- The value is that of the `return` that comes last in the diary, or `nil` if there is none. -/
def Yields (host : Host) (returns : List (Token × Option (Expr Place))) (entries : Diary)
    (v : Value) : Prop :=
  v = .nil ∧ (∀ entry ∈ entries, ¬entry.IsReturn) ∨
    ∃ keyword value m before m', (keyword, value) ∈ returns ∧
      entries = .statement (.giveBack keyword value) m :: before ∧
      (∀ entry ∈ before, ¬entry.IsReturn) ∧ evaluateOptional host value m = .ok v m'

/-- With an empty diary at the start, the diary makes no difference to the run, and it explains the
value. -/
def Explains (P : Diary → Value → Prop) (act : Run Value) (logged : Logged Value) :
    Prop :=
  ∀ m, bare (logged ⟨m, []⟩) = act m ∧ ∀ v d, logged ⟨m, []⟩ = .ok v d → P d.notes v

section Calls

variable {host : Host} {P : Diary → Value → Prop}

/-- What comes before the body enters nothing. -/
theorem Explains.lift_bind {act : Run α} {f : α → Run Value} {logged : α → Logged Value}
    (h : ∀ a, Explains P (f a) (logged a)) : Explains P (act >>= f) (lift act >>= logged) := by
  intro m
  show bare (EStateM.bind (lift act) logged ⟨m, []⟩) = EStateM.bind act f m ∧
    ∀ v d, EStateM.bind (lift act) logged ⟨m, []⟩ = .ok v d → _
  unfold EStateM.bind lift
  dsimp only
  cases act m with
  | ok a m' => exact h a m'
  | error e m' => exact ⟨rfl, nofun⟩

/-- The body comes to what its diary says. -/
theorem explains_body (c : Closure) (frame : FrameId) :
    Explains (fun entries v => c.isInitializer = false →
        Yields host (Stmt.giveBacksIn c.routine.body) entries v)
      (Run.inFrame frame (Run.executeAll host c.routine.body) >>= resultOf c)
      (inside frame (executeAll host c.routine.body) >>= fun completion =>
        lift (resultOf c completion)) := by
  intro m
  have horderly : Orderly host _ _ _ := orderly_inside frame (orderly_executeAll c.routine.body)
  obtain ⟨hbare, new, hentries, hends⟩ := horderly ⟨m, []⟩
  show bare (EStateM.bind (inside frame _) _ ⟨m, []⟩) = EStateM.bind (Run.inFrame frame _) _ m ∧
    ∀ v d, EStateM.bind (inside frame _) _ ⟨m, []⟩ = .ok v d → _
  rw [EStateM.bind, EStateM.bind, ← hbare]
  cases hlogged : inside frame (executeAll host c.routine.body) ⟨m, []⟩ with
  | error e d => exact ⟨rfl, nofun⟩
  | ok completion d =>
    rw [hlogged] at hentries hends
    obtain rfl : d.notes = new := hentries.trans (List.append_nil new)
    refine ⟨bare_lift (resultOf c completion) d, fun v d' hresult hinit => ?_⟩
    replace hresult : lift (resultOf c completion) d = .ok v d' := hresult
    rw [resultOf_eq_pure hinit] at hresult
    cases hresult
    cases completion with
    | normal => exact .inl ⟨rfl, hends⟩
    | returning v =>
      obtain ⟨keyword, value, m₀, before, m', hmem, hnew, hbefore, hvalue, -⟩ := hends
      exact .inr ⟨keyword, value, m₀, before, m', hmem, hnew, hbefore, hvalue⟩

/-- **A call** of a closure that is no initializer comes to the value of the `return` that ended its
body, and to `nil` if none did. -/
theorem explains_runClosure {id : ClosureId} {m : Machine} {c : Closure}
    (hc : m.closures[id]? = some c) (values : List Value) :
    bare (runClosure host id values ⟨m, []⟩) = Run.runClosure host id values m ∧
      ∀ v d, runClosure host id values ⟨m, []⟩ = .ok v d → c.isInitializer = false →
        Yields host (Stmt.giveBacksIn c.routine.body) d.notes v := by
  have hcall : Explains
      (fun entries v => c.isInitializer = false →
        Yields host (Stmt.giveBacksIn c.routine.body) entries v)
      (do
        let frame ← newFrame c.home
        bindParams frame c.routine.params values
        let completion ← Run.inFrame frame (Run.executeAll host c.routine.body)
        resultOf c completion)
      (do
        let frame ← lift (newFrame c.home)
        lift (bindParams frame c.routine.params values)
        let completion ← inside frame (executeAll host c.routine.body)
        lift (resultOf c completion)) :=
    .lift_bind fun frame => .lift_bind fun _ => explains_body c frame
  show bare ((lift (expectSome m.closures[id]?) >>= _) ⟨m, []⟩) =
    (expectSome m.closures[id]? >>= _) m ∧
      ∀ v d, (lift (expectSome m.closures[id]?) >>= _) ⟨m, []⟩ = .ok v d → _
  rw [hc]
  exact hcall m

end Calls

end Logged

end LoxInterpreter
