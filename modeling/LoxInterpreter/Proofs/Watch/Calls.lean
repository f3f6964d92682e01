import LoxInterpreter.Proofs.Watch.Sessions

/-!
# What calls come to

A `return` ends the activation that it stands in, and its value is what the call comes to
(`return_discipline`). Within an activation this shows in a diary, whatever the host does
(`Logged.Orderly`). Between activations the ledger of a session tells what each call came to
(`CallRecord.Right`): a class hands back a new instance of itself and an initializer its own
instance, even if a `return` ended it.

How a statement ends is no value, so that there is nothing to say of its getting into the store.
-/

namespace LoxInterpreter

open Run

/-- **The discipline of `return`.** Whatever the host is, a statement hands a value back only if the
last that it has begun is a `return` in it, outside of nested routines; the value is the one of this
`return`, and a call of a closure that is no initializer comes to it, or to `nil` if there is none.
In sessions with honest functions of the host all calls come to what they should, and no `return`
gets to the top level. -/
theorem return_discipline {answers : Answers} (hanswers : answers.Honest) (report : Report)
    (natives : List Native) (clock : Float) (limits : Limits) (earlier : List String)
    (text : String) :
    let start : Session := ⟨report, .initial natives clock, answers⟩
    let before := start.watchAll limits earlier .blank
    let watched := before.1.watch limits text before.2
    (∀ host s, Logged.Orderly host s.giveBacks (execute host s) (Logged.execute host s)) ∧
      (∀ host id (c : Closure) values (m : Machine), m.closures[id]? = some c →
        Noting.bare (Logged.runClosure host id values ⟨m, []⟩) = runClosure host id values m ∧
        ∀ v d, Logged.runClosure host id values ⟨m, []⟩ = .ok v d → c.isInitializer = false →
          Logged.Yields host (Stmt.giveBacksIn c.routine.body) d.notes v) ∧
      watched.1 = (start.after .byDistance limits earlier).run limits text ∧
      (∀ call ∈ watched.2.calls, call.Right) ∧
      watched.1.2 ≠ some (.fault .returnAtTopLevel) := by
  obtain ⟨hsame, hright, hfault⟩ := Session.watch_after
    (Session.sound_initial hanswers report natives clock) (Session.right_blank natives clock)
    limits earlier text
  refine ⟨fun _ => Logged.orderly_execute,
    fun _ _ _ values _ hc => Logged.explains_runClosure hc values, hsame, hright.calls,
    fun htop => ?_⟩
  obtain ⟨name, hname⟩ := hfault _ htop
  cases hname

/-- A text in which a `return` ends a loop and an initializer, and a function has the name of an
initializer and is none. -/
def returnEarly : String :=
  "class A \x7b init() \x7b while (true) return; \x7d" ++
  "m() \x7b fun init() \x7b return; \x7d return init; \x7d \x7d" ++
  "class B < A \x7b\x7d B().m()();"

/-- The initializer hands its instance back, and the function `nil`. -/
theorem return_discipline_returnEarly :
    let start : Session := ⟨.quiet "", .initial Native.all 0, .usual⟩
    let before := start.watchAll ⟨3, 1⟩ [] .blank
    let watched := before.1.watch ⟨3, 1⟩ returnEarly before.2
    Answers.usual.Honest ∧
      watched.2.calls =
        [.ended ⟨[.receiver (.object 0)], false⟩ "init" (.returning .nil) .nil,
          .ended ⟨[.receiver (.object 0)], true⟩ "m" (.returning (.closure 4)) (.closure 4),
          .made 1 0 (.object 0) (some 1),
          .ended ⟨[.receiver (.object 0)], true⟩ "init" (.returning .nil) (.object 0)] ∧
      (∀ host s, Logged.Orderly host s.giveBacks (execute host s) (Logged.execute host s)) ∧
      (∀ host id (c : Closure) values (m : Machine), m.closures[id]? = some c →
        Noting.bare (Logged.runClosure host id values ⟨m, []⟩) = runClosure host id values m ∧
        ∀ v d, Logged.runClosure host id values ⟨m, []⟩ = .ok v d → c.isInitializer = false →
          Logged.Yields host (Stmt.giveBacksIn c.routine.body) d.notes v) ∧
      watched.1 = (start.after .byDistance ⟨3, 1⟩ []).run ⟨3, 1⟩ returnEarly ∧
      (∀ call ∈ watched.2.calls, call.Right) ∧
      watched.1.2 ≠ some (.fault .returnAtTopLevel) := by
  refine ⟨Answers.honest_usual, ?_, return_discipline Answers.honest_usual (.quiet "") Native.all 0
    ⟨3, 1⟩ [] returnEarly⟩
  decide +kernel

end LoxInterpreter
