import LoxInterpreter.Proofs.Run.Sessions
import LoxInterpreter.Proofs.Watch.Evaluation

/-!
# `this` and `super` are fixed

A session with a ledger runs every text as the plain session does, and its ledger is right after
each (`Session.watch_right`, `Session.watchAll_right`): a closure keeps its bond for ever, and any
later text may call it.

So every evaluation of `this` comes to the instance that the method around it was fetched for, and
every evaluation of `super` searches the class that the head of the class around it came to when the
class was declared (`this_super_fixed`). Neither depends on the class of the instance, on the code
that calls the method, or on what has been assigned to the names of the classes since.
-/

namespace LoxInterpreter

open Run Noting

variable {Φ : Site Place → Prop}

namespace Session

/-- Between texts the frame of the globals holds no bond. -/
theorem Sound.exists_here {s : Session} (hs : s.Sound Φ) :
    ∃ w : World Φ, w.machine = s.machine ∧ w.Here [] [] ∧ w.machine.Holds w.machine.current [] := by
  obtain ⟨-, w, hmachine, h⟩ := hs
  have hstands := h.stands.standsFor
  exact ⟨w, hmachine, h, .globals (h.sound.lt_nextId hstands) (h.sound.globals _ hstands).2⟩

/-- **One text** runs alike with a ledger, and leaves it right. -/
theorem watch_right {s : Session} (hs : s.Sound Φ) {text : String} (htext : SitesSatisfy Φ text)
    (limits : Limits) {ledger : Ledger} (hright : Watch.Right ⟨s.machine, ledger⟩) :
    (s.watch limits text ledger).1 = s.run limits text ∧
      Watch.Right ⟨(s.run limits text).1.machine, (s.watch limits text ledger).2⟩ := by
  have honest := hs.honest
  obtain ⟨w, hmachine, h, hholds⟩ := hs.exists_here
  unfold run runBy watch
  cases hcheck : Reporting.check text s.report with
  | error why report => exact ⟨rfl, hright⟩
  | ok checked report =>
    cases checked with
    | none => exact ⟨rfl, hright⟩
    | some program =>
      have haccepted : Accepted text program := ⟨_, _, hcheck⟩
      rw [← hmachine] at hright
      obtain ⟨hbare, hright', -⟩ :=
        alongside_interpret (faithful_watcher honest limits) program h
          (haccepted.fits (htext program haccepted)) ledger hright hholds
      rw [hmachine] at hbare hright'
      replace hbare : bare (Watched.interpret (limits.watcher s.answers) program
        ⟨s.machine, ledger⟩) =
          interpret (limits.hostBy .byDistance s.answers) program s.machine := hbare
      dsimp only
      rw [← hbare]
      cases hrun : Watched.interpret (limits.watcher s.answers) program ⟨s.machine, ledger⟩ with
      | ok _ w =>
        rw [hrun] at hright'
        exact ⟨rfl, hright'⟩
      | error e w =>
        rw [hrun] at hright'
        cases e <;> exact ⟨rfl, hright'⟩

/-- **Many texts** run alike with a ledger, and leave it right. -/
theorem watchAll_right {s : Session} (hs : s.Sound Φ) {texts : List String}
    (htexts : ∀ text ∈ texts, SitesSatisfy Φ text) (limits : Limits) {ledger : Ledger}
    (hright : Watch.Right ⟨s.machine, ledger⟩) :
    (s.watchAll limits texts ledger).1 = s.after .byDistance limits texts ∧
      Watch.Right ⟨(s.after .byDistance limits texts).machine,
        (s.watchAll limits texts ledger).2⟩ := by
  induction texts generalizing s ledger with
  | nil =>
    rw [after_nil]
    exact ⟨rfl, hright⟩
  | cons text rest ih =>
    obtain ⟨htext, hrest⟩ := List.forall_mem_cons.mp htexts
    obtain ⟨hsame, hright'⟩ := watch_right hs htext limits hright
    obtain ⟨-, hsound, -⟩ := runBy_together Names.agree_byDistance hs htext limits
    rw [← reset_machine] at hright'
    rw [watchAll, after_cons, hsame]
    exact ih hsound.reset hrest hright'

/-- Before anything has been run, nothing has been entered. -/
theorem right_blank (natives : List Native) (clock : Float) :
    Watch.Right ⟨Machine.initial natives clock, .blank⟩ :=
  ⟨rfl, fun _ _ _ hc => (nomatch hc), List.forall_mem_nil _, List.forall_mem_nil _⟩

/-- **A text after others.** With a ledger it runs as without, the ledger is right after it, and the
only fault is an assignment by distance. -/
theorem watch_after {s : Session} (hs : s.Sound fun _ => True) {ledger : Ledger}
    (hright : Watch.Right ⟨s.machine, ledger⟩) (limits : Limits) (earlier : List String)
    (text : String) :
    let before := s.watchAll limits earlier ledger
    let watched := before.1.watch limits text before.2
    watched.1 = (s.after .byDistance limits earlier).run limits text ∧
      Watch.Right ⟨watched.1.1.machine, watched.2⟩ ∧
      ∀ what, watched.1.2 = some (.fault what) → ∃ name, what = .unassignable name := by
  have hsites (text : String) : SitesSatisfy (fun _ => True) text := fun _ _ _ _ => trivial
  obtain ⟨hsame, hbefore⟩ :=
    watchAll_right hs (fun text (_ : text ∈ earlier) => hsites text) limits hright
  obtain ⟨-, hsound⟩ := after_together Names.agree_byDistance hs
    (fun text (_ : text ∈ earlier) => hsites text) limits
  dsimp only
  rw [hsame]
  obtain ⟨hwatched, hafter⟩ := watch_right hsound (hsites text) limits hbefore
  obtain ⟨-, -, hfault⟩ := runBy_together Names.agree_byDistance hsound (hsites text) limits
  rw [hwatched]
  refine ⟨rfl, hafter, fun what hwhat => ?_⟩
  obtain ⟨site, -, -, rfl⟩ := hfault what hwhat
  exact ⟨_, rfl⟩

end Session

/-- **`this` and `super` are fixed.** Texts are run one after the other with honest functions of the
host, and with a ledger. That makes no difference to the runs; every `this` has come to the instance
of the bond of its code, and every `super` to the superclass and the instance of the bond. No run
ends in a fault of another kind than an assignment, hence none for want of one of the two. -/
theorem this_super_fixed {answers : Answers} (hanswers : answers.Honest) (report : Report)
    (natives : List Native) (clock : Float) (limits : Limits) (earlier : List String)
    (text : String) :
    let start : Session := ⟨report, .initial natives clock, answers⟩
    let before := start.watchAll limits earlier .blank
    let watched := before.1.watch limits text before.2
    watched.1 = (start.after .byDistance limits earlier).run limits text ∧
      (∀ sighting ∈ watched.2.sightings, sighting.Right) ∧
      ∀ what, watched.1.2 = some (.fault what) → ∃ name, what = .unassignable name := by
  obtain ⟨hsame, hright, hfault⟩ := Session.watch_after
    (Session.sound_initial hanswers report natives clock) (Session.right_blank natives clock)
    limits earlier text
  exact ⟨hsame, hright.sightings, hfault⟩

/-- Texts that fetch a method of a superclass for an instance of a subclass of a subclass, let a
function get out of another such method, and then lose the classes. -/
def fetchMethods : List String :=
  ["class A \x7b m() \x7b return this; \x7d \x7d",
    "class B < A \x7b m() \x7b return super.m(); \x7d
      f() \x7b fun g() \x7b return super.m; \x7d return g; \x7d \x7d",
    "class C < B \x7b m() \x7b\x7d \x7d class D < B \x7b\x7d",
    "var m = D().m; var g = C().f();",
    "A = nil; B = nil;"]

/-- A text that calls what the earlier ones have fetched. -/
def callMethods : String := "m(); g()()();"

/-- Whatever has become of the classes and their names, both keywords are found where the methods
were declared and fetched. -/
theorem this_super_fixed_fetchMethods :
    let start : Session := ⟨.quiet "", .initial Native.all 0, .usual⟩
    let before := start.watchAll ⟨5, 1⟩ fetchMethods .blank
    let watched := before.1.watch ⟨5, 1⟩ callMethods before.2
    Answers.usual.Honest ∧
      watched.2.sightings =
        [.this [.receiver (.object 1)] (.object 1),
          .super [.receiver (.object 1), .superclass 0] 0 (.object 1),
          .this [.receiver (.object 0)] (.object 0),
          .super [.receiver (.object 0), .superclass 0] 0 (.object 0)] ∧
      watched.1 = (start.after .byDistance ⟨5, 1⟩ fetchMethods).run ⟨5, 1⟩ callMethods ∧
      (∀ sighting ∈ watched.2.sightings, sighting.Right) ∧
      ∀ what, watched.1.2 = some (.fault what) → ∃ name, what = .unassignable name := by
  refine ⟨Answers.honest_usual, ?_, this_super_fixed Answers.honest_usual (.quiet "") Native.all 0
    ⟨5, 1⟩ fetchMethods callMethods⟩
  decide +kernel

end LoxInterpreter
