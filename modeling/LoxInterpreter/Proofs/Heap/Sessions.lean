import LoxInterpreter.Proofs.Heap.Evaluation
import LoxInterpreter.Proofs.Run.Sessions

/-!
# The heap of a session stays well formed

A session with a chronicle runs every text as the plain session does, and its chronicle stays right
(`Session.chronicle_kept`, `Session.chronicleAll_kept`). So in all states of all sessions
(`heap_wellFormed`):

* frames and classes point to older ones, for ever, so that searches outward and upward come to an
  end;
* names that are bound stay bound, and classes keep their methods;
* a frame that was made to tie a method to an instance binds `this` to that instance and nothing
  else, a frame that was made for a class with a superclass binds `super` to that superclass and
  nothing else, and programs write to neither;
* no method is called that has not been tied to an instance.
-/

namespace LoxInterpreter

open Run Noting

/-! ### Searches -/

/-- The way outward from a frame has no more steps than the number of the frame says. -/
theorem Forest.Ordered.ancestor?_eq_none {α : Type} {forest : Forest α} (h : forest.Ordered)
    {f : FrameId} {distance : Nat} (hf : f < distance) : forest.ancestor? distance f = none := by
  induction distance generalizing f with
  | zero => exact absurd hf (Nat.not_lt_zero f)
  | succ distance ih =>
    rw [ancestor?]
    cases hg : forest.enclosing? f with
    | none => rfl
    | some g => exact ih ((h f g hg).trans_le (Nat.le_of_lt_succ hf))

/-- A way up the classes with enough fuel goes all the way. -/
theorem Origins.Describes.findMethodWithin_eq {o : Origins} {m : Machine} (h : o.Describes m)
    {id : ClassId} {fuel : Nat} (hfuel : id < fuel) (name : String) :
    m.findMethodWithin fuel id name = m.findMethod? id name := by
  induction id using Nat.strong_induction_on generalizing fuel with
  | h id ih =>
    obtain ⟨fuel, rfl⟩ := Nat.exists_eq_add_one_of_ne_zero (Nat.ne_zero_of_lt hfuel)
    rw [Machine.findMethod?, Machine.findMethodWithin, Machine.findMethodWithin]
    cases hk : m.classes[id]? with
    | none => rfl
    | some k =>
      rw [Option.bind_some, Option.bind_some]
      cases hown : k.methods.lookup name with
      | some method => rfl
      | none =>
        dsimp only
        cases hs : k.superclass with
        | none => rfl
        | some s =>
          -- the superclass is older
          have hlt := h.upward id k s hk hs
          rw [Option.bind_some, Option.bind_some, ih s hlt (hlt.trans_le (Nat.le_of_lt_succ hfuel)),
            ih s hlt hlt]

/-- **Searches come to an end.** There is no way outward with more steps than the number of a frame
says, and to search any further makes no difference. -/
structure Machine.SearchesEnd (m : Machine) : Prop where
  ancestor : ∀ (f : FrameId) distance, f < distance → m.forest.ancestor? distance f = none
  chain : ∀ (f : FrameId) fuel, f < fuel → m.forest.chainWithin fuel f = m.forest.chain f
  method : ∀ (id : ClassId) fuel name, id < fuel →
    m.findMethodWithin fuel id name = m.findMethod? id name

theorem Origins.Describes.searchesEnd {o : Origins} {m : Machine} (h : o.Describes m) :
    m.SearchesEnd where
  ancestor _ _ hf := h.outward.ancestor?_eq_none hf
  chain _ _ hf := h.outward.chainWithin_eq_chain hf
  method _ _ name hid := h.findMethodWithin_eq hid name

/-! ### Chronicles -/

/-- **Well formed from the beginning on.** The chronicle tells of all states in their order, and of
each frame and closure what it was made for. -/
structure Chronicle.WellFormed (c : Chronicle) : Prop where
  /-- The states follow each other step by step. -/
  course : c.states.IsChain fun later earlier => c.origins.Changes earlier later
  /-- What points to older things does so for ever, and what is bound stays bound. -/
  kept : c.states.Pairwise fun later earlier => earlier.Lasts later
  /-- There is nothing in a state of which the chronicle does not tell. -/
  complete : ∀ m ∈ c.states, m.forest.nextId ≤ c.origins.frames.size ∧
    m.closures.size ≤ c.origins.closures.size
  states : ∀ m ∈ c.states, c.origins.Describes m ∧ m.SearchesEnd
  receivers : ∀ (f : FrameId) v, c.origins.frames[f]? = some (.receiver v) → v.IsInstance
  /-- Programs write to no frame that was made to bind a keyword. -/
  writes : ∀ w ∈ c.writes, c.origins.IsOpen w.1 ∧ w.2 ≠ "this" ∧ w.2 ≠ "super"
  /-- Programs call no method that has still to be tied. -/
  calls : ∀ id ∈ c.calls, c.origins.Callable id

theorem Kept.wellFormed {t : Told} (h : Kept t) : t.notes.WellFormed := by
  obtain ⟨hlive, hrecorded, -⟩ := h
  refine ⟨hrecorded.course, hrecorded.kept, fun m hm => ?_, fun m hm => ?_,
    hlive.instances.receivers, hrecorded.writes, hrecorded.calls⟩
  · have hlasts := (hrecorded.states m hm).2
    exact ⟨hlasts.nextId.trans_eq hlive.frames_size.symm,
      hlasts.size_closures.trans_eq hlive.closures_size.symm⟩
  · have hdescribes := (hrecorded.states m hm).1
    exact ⟨hdescribes, hdescribes.searchesEnd⟩

/-! ### The first state -/

/-- Bindings among the globals, which a host makes. -/
theorem Live.define_natives {o : Origins} {m : Machine} (h : Live o m)
    (hglobals : o.IsOpen Machine.globals)
    (houtermost : m.forest.enclosing? Machine.globals = none) (natives : List Native) :
    Live o { m with
      forest :=
        natives.foldl (fun f n => f.define Machine.globals n.name (.native n)) m.forest } := by
  induction natives generalizing m with
  | nil => exact h
  | cons n rest ih =>
    have hnative : o.Usable m (.native n) := trivial
    exact ih (h.define hglobals (fun _ => houtermost) hnative)
      ((Forest.enclosing?_define _ _ _ _ _).trans houtermost)

/-- Before anything has been run, there is but the frame of the globals. -/
theorem live_initial (natives : List Native) (clock : Float) :
    Live ⟨#[.globals], #[]⟩ (Machine.initial natives clock) := by
  have henclosing (f : FrameId) :
      (Machine.initial [] clock).forest.enclosing? f = none := by
    show (Forest.empty.push none : Forest Value).enclosing? f = none
    rw [Forest.enclosing?_push]
    split <;> rfl
  have hbinds (f : FrameId) (x : String) :
      (Machine.initial [] clock).forest.lookup? f x = none := by
    show (Forest.empty.push none : Forest Value).lookup? f x = none
    rw [Forest.lookup?_push]
    rfl
  have hbare : Live ⟨#[.globals], #[]⟩ (Machine.initial [] clock) := by
    refine ⟨rfl, rfl, nofun, fun v hv => ?_, ⟨fun f g hg => ?_, nofun, fun f p b frame hp hb => ?_,
      nofun, nofun⟩, fun f v hf => ?_, fun f v hv => ?_⟩
    · cases hv with
      | plain hplain => exact hplain.usable _ _
      | klass hid => exact absurd hid (Nat.not_lt_zero _)
      | object hid => trivial
      | bound hx =>
        rw [hbinds] at hx
        cases hx
      | held hi => cases hi
      | handed hcall => cases hcall
    · rw [henclosing] at hg
      cases hg
    · cases f with
      | zero =>
        cases hp
        cases hb
      | succ f => cases hp
    · cases f with
      | zero => cases hf
      | succ f => cases hf
    · exact .inl (henclosing f)
  exact hbare.define_natives ⟨_, rfl, rfl⟩ (henclosing _) natives

/-- A chronicle begins right. -/
theorem kept_beginning (natives : List Native) (clock : Float) :
    Kept ⟨.initial natives clock, .beginning (.initial natives clock)⟩ := by
  have hlive := live_initial natives clock
  refine ⟨hlive, ⟨List.isChain_singleton _, fun x hx => ?_, List.pairwise_singleton _ _,
    ⟨_, Machine.globals, rfl, rfl⟩, List.forall_mem_nil _, List.forall_mem_nil _⟩, ⟨_, rfl, rfl⟩⟩
  obtain rfl := List.mem_singleton.mp hx
  exact ⟨hlive.describes, .refl _⟩

/-! ### Texts and sessions -/

namespace Session

/-- **One text** runs alike with a chronicle, and leaves it right. -/
theorem chronicle_kept {s : Session} (honest : s.answers.Honest) (limits : Limits) (text : String)
    {c : Chronicle} (h : Kept ⟨s.machine, c⟩) :
    (s.chronicle limits text c).1 = s.run limits text ∧
      (s.run limits text).1.answers = s.answers ∧
      Kept ⟨(s.run limits text).1.machine, (s.chronicle limits text c).2⟩ ∧
      Told.Grows ⟨s.machine, c⟩
        ⟨(s.run limits text).1.machine, (s.chronicle limits text c).2⟩ := by
  unfold run runBy chronicle
  cases hcheck : Reporting.check text s.report with
  | error why report => exact ⟨rfl, rfl, h, .refl _⟩
  | ok checked report =>
    cases checked with
    | none => exact ⟨rfl, rfl, h, .refl _⟩
    | some program =>
      have haccepted : Accepted text program := ⟨_, _, hcheck⟩
      obtain ⟨hbare, hkept, hgrows⟩ := (tells_interpret (faithful_scribe honest limits) program h
        (haccepted.fits fun _ _ => trivial)).kept
      replace hbare : bare (Chronicled.interpret (limits.scribe s.answers) program ⟨s.machine, c⟩) =
        interpret (limits.hostBy .byDistance s.answers) program s.machine := hbare
      dsimp only
      rw [← hbare]
      cases hrun : Chronicled.interpret (limits.scribe s.answers) program ⟨s.machine, c⟩ with
      | ok _ t =>
        rw [hrun] at hkept hgrows
        exact ⟨rfl, rfl, hkept, hgrows⟩
      | error e t =>
        rw [hrun] at hkept hgrows
        cases e <;> exact ⟨rfl, rfl, hkept, hgrows⟩

/-- **Many texts** run alike with a chronicle, and leave it right. -/
theorem chronicleAll_kept {s : Session} (honest : s.answers.Honest) (limits : Limits)
    (texts : List String) {c : Chronicle} (h : Kept ⟨s.machine, c⟩) :
    (s.chronicleAll limits texts c).1 = s.after .byDistance limits texts ∧
      Kept ⟨(s.after .byDistance limits texts).machine, (s.chronicleAll limits texts c).2⟩ ∧
      Told.Grows ⟨s.machine, c⟩
        ⟨(s.after .byDistance limits texts).machine, (s.chronicleAll limits texts c).2⟩ := by
  induction texts generalizing s c with
  | nil =>
    rw [after_nil]
    exact ⟨rfl, h, .refl _⟩
  | cons text rest ih =>
    obtain ⟨hsame, hanswers, hkept, hgrows⟩ := chronicle_kept honest limits text h
    rw [chronicleAll, after_cons, hsame]
    have honest' : (s.run limits text).1.reset.answers.Honest := by
      show (s.run limits text).1.answers.Honest
      rwa [hanswers]
    obtain ⟨hsame', hkept', hgrows'⟩ := ih honest' hkept
    exact ⟨hsame', hkept', hgrows.trans hgrows'⟩

end Session

/-- **The heap of a session stays well formed.** Texts are run one after the other with honest
functions of the host, and with a chronicle. That makes no difference to the runs; the chronicle
leads from the first state to the last one, and is well formed. -/
theorem heap_wellFormed {answers : Answers} (hanswers : answers.Honest) (report : Report)
    (natives : List Native) (clock : Float) (limits : Limits) (texts : List String) :
    let start : Session := ⟨report, .initial natives clock, answers⟩
    let told := start.chronicleAll limits texts (.beginning start.machine)
    told.1 = start.after .byDistance limits texts ∧
      [start.machine] <:+ told.2.states ∧
      (∃ m f, told.2.states.head? = some m ∧ told.1.machine = { m with current := f }) ∧
      told.2.WellFormed := by
  intro start told
  obtain ⟨hsame, hkept, hgrows⟩ := Session.chronicleAll_kept (s := start) hanswers limits texts
    (kept_beginning natives clock)
  refine ⟨hsame, hgrows.states, ?_, hkept.wellFormed⟩
  obtain ⟨m, f, hm, hmachine⟩ := hkept.recorded.latest
  exact ⟨m, f, hm, (congrArg Session.machine hsame).trans hmachine⟩

/-- Texts that make an instance of a subclass, fetch one of its methods and call it, which fetches
and calls one of the superclass. The last one is not accepted. -/
def tellMethods : List String :=
  ["class A \x7b m() \x7b return this; \x7d \x7d
    class B < A \x7b init(x) \x7b this.x = x; \x7d m() \x7b return super.m(); \x7d \x7d",
    "var b = B(1); \x7b var m = b.m; b = m(); \x7d",
    "this = b;"]

/-- The keywords have frames of their own, to which nothing is written, and none of the three
methods is called before it has been tied. -/
theorem heap_wellFormed_tellMethods :
    let start : Session := ⟨.quiet "", .initial Native.all 0, .usual⟩
    let told := start.chronicleAll ⟨5, 1⟩ tellMethods (.beginning start.machine)
    Answers.usual.Honest ∧
      (told.2.origins =
          ⟨#[.globals, .superclass 0, .receiver (.object 0), .call 3, .block,
              .receiver (.object 0), .call 4, .receiver (.object 0), .call 5],
            #[.method, .method, .method, .tied 1 (.object 0), .tied 2 (.object 0),
              .tied 0 (.object 0)]⟩ ∧
        told.2.writes = [(0, "b"), (4, "m"), (0, "b"), (3, "x"), (0, "B"), (0, "B"), (0, "A"),
          (0, "A")] ∧
        told.2.calls = [5, 4, 3]) ∧
      told.1 = start.after .byDistance ⟨5, 1⟩ tellMethods ∧
      [start.machine] <:+ told.2.states ∧
      (∃ m f, told.2.states.head? = some m ∧ told.1.machine = { m with current := f }) ∧
      told.2.WellFormed := by
  refine ⟨Answers.honest_usual, ?_, heap_wellFormed Answers.honest_usual (.quiet "") Native.all 0
    ⟨5, 1⟩ tellMethods⟩
  decide +kernel

end LoxInterpreter
