import LoxInterpreter.Proofs.Run.Evaluation

/-!
# Links and frames never drift apart

A session runs texts one after the other on one machine. Scope analysis sees each text by itself,
and evaluation sees nothing but links and frames; a closure may outlive the text that made it by
many others. Still every link that is followed leads where it should (`fault_ownInitializer`): the
only fault in any session is the assignment to a local variable in its own initializer.

`Session.Sound` is the invariant between texts: the machine belongs to a sound world and is back at
the top level. `Session.runBy_together` carries it through the run of one text,
`Session.after_together` through many.
-/

namespace LoxInterpreter

open Run

variable {Φ : Site Place → Prop}

/-! ### The first world -/

/-- Bindings among the globals keep a world at the top level. -/
theorem World.Here.define_natives {w : World Φ} (h : w.Here [] []) (natives : List Native) :
    (w.set { w.machine with
      forest := natives.foldl (fun f n => f.define w.machine.current n.name (.native n))
        w.machine.forest }).Here [] [] := by
  induction natives generalizing w with
  | nil => exact h
  | cons n rest ih =>
    have hw : w.Follows (w.define w.machine.current n.name (.native n)) :=
      World.follows_define h.sound h.stands.standsFor trivial trivial
    exact ih (h.follow hw)

/-- Before anything has been run, there is but the frame of the globals. -/
theorem World.exists_initial (natives : List Native) (clock : Float) :
    ∃ w : World Φ, w.machine = Machine.initial natives clock ∧ w.Here [] [] := by
  -- one frame, which stands for no scope and binds nothing
  let bare : World Φ := ⟨Machine.initial [] clock, [[]]⟩
  have hbinds (f : FrameId) (x : String) : bare.machine.forest.lookup? f x = none := by
    show (Forest.empty.push none : Forest Value).lookup? f x = none
    rw [Forest.lookup?_push]
    rfl
  have hzero (f : FrameId) (around : List LocalScope) (hf : bare.StandsFor f around) :
      f = 0 ∧ around = [] := by
    replace hf : [([] : List LocalScope)][f]? = some around := hf
    cases f with
    | zero =>
      cases hf
      exact ⟨rfl, rfl⟩
    | succ f => cases hf
  have hdistinct : (Forest.empty : Forest Value).Distinct := by
    intro id frame hframe
    simp [Forest.empty] at hframe
  have hsound : bare.Sound := by
    refine ⟨rfl, hdistinct.push none, fun f hf => ?_, fun f scope outer hf => ?_,
      fun f around x v _ hx => ?_, fun f x v hx => ?_, fun id i x v hi _ => ?_,
      fun f vs v hf _ => ?_, fun id c x k hc _ => ?_⟩
    · obtain ⟨rfl, -⟩ := hzero f [] hf
      exact ⟨rfl, rfl⟩
    · cases (hzero f _ hf).2
    · rw [hbinds] at hx
      cases hx
    · rw [hbinds] at hx
      cases hx
    · cases hi
    · cases hf
    · cases hc
  exact ⟨_, rfl, World.Here.define_natives (w := bare) ⟨hsound, rfl, trivial⟩ natives⟩

/-! ### Texts and sessions -/

namespace Session

/-- The invariant between texts. -/
structure Sound (Φ : Site Place → Prop) (s : Session) : Prop where
  honest : s.answers.Honest
  world : ∃ w : World Φ, w.machine = s.machine ∧ w.Here [] []

/-- A session in which nothing has happened is sound. -/
theorem sound_initial {answers : Answers} (honest : answers.Honest) (report : Report)
    (natives : List Native) (clock : Float) :
    Sound Φ ⟨report, Machine.initial natives clock, answers⟩ :=
  ⟨honest, World.exists_initial natives clock⟩

@[simp]
theorem reset_machine (s : Session) : s.reset.machine = s.machine := rfl

/-- Forgetting the issues does not concern the machine. -/
theorem Sound.reset {s : Session} (hs : s.Sound Φ) : s.reset.Sound Φ := ⟨hs.honest, hs.world⟩

/-- The sites of the text satisfy the predicate, if the text is accepted. -/
def SitesSatisfy (Φ : Site Place → Prop) (text : String) : Prop :=
  ∀ program, Accepted text program → ∀ site ∈ sites program, Φ site

/-- **One text.** It runs alike, whether names are found by distance or in a way that comes to the
same; the session is sound after it, and a fault is explained. -/
theorem runBy_together {names : Names} (hnames : names.Agree Φ) {s : Session} (hs : s.Sound Φ)
    {text : String} (htext : SitesSatisfy Φ text) (limits : Limits) :
    s.runBy names limits text = s.run limits text ∧ (s.run limits text).1.Sound Φ ∧
      ∀ what, (s.run limits text).2 = some (.fault what) →
        (Interruption.fault what).Explained Φ := by
  obtain ⟨honest, w, hmachine, h⟩ := hs
  unfold run runBy
  cases hcheck : Reporting.check text s.report with
  | error why report =>
    dsimp only
    exact ⟨rfl, ⟨honest, w, hmachine, h⟩, fun what hwhat => by cases hwhat⟩
  | ok checked report =>
    cases checked with
    | none =>
      dsimp only
      exact ⟨rfl, ⟨honest, w, hmachine, h⟩, fun what hwhat => by cases hwhat⟩
    | some program =>
      have haccepted : Accepted text program := ⟨_, _, hcheck⟩
      obtain ⟨hsame, hkeeps⟩ := together_interpret (matches_hostBy hnames honest limits) program h
        (haccepted.fits (htext program haccepted))
      rw [hmachine] at hsame hkeeps
      dsimp only
      rw [hsame]
      -- from here on there is but one run
      cases hrun : interpret (limits.hostBy .byDistance s.answers) program s.machine with
      | ok _ machine =>
        rw [hrun] at hkeeps
        obtain ⟨w', rfl, hw, -⟩ := hkeeps
        dsimp only
        exact ⟨rfl, ⟨honest, w', rfl, h.follow hw⟩, fun what hwhat => by cases hwhat⟩
      | error e machine =>
        rw [hrun] at hkeeps
        obtain ⟨w', rfl, hw, he⟩ := hkeeps
        have hsound : w'.Here [] [] := h.follow hw
        cases e with
        | failure token cause | exhausted =>
          dsimp only
          exact ⟨rfl, ⟨honest, w', rfl, hsound⟩, fun what hwhat => by cases hwhat⟩
        | fault what =>
          dsimp only
          refine ⟨rfl, ⟨honest, w', rfl, h.follow hw⟩, fun what' hwhat => ?_⟩
          cases hwhat
          exact he

/-- The session after the texts have been run in order. Issues and failures are forgotten after
each, however it ended. -/
def after (names : Names) (limits : Limits) (texts : List String) (s : Session) : Session :=
  texts.foldl (fun s text => (s.runBy names limits text).1.reset) s

theorem after_nil (names : Names) (limits : Limits) (s : Session) : s.after names limits [] = s :=
  List.foldl_nil

theorem after_cons (names : Names) (limits : Limits) (text : String) (rest : List String)
    (s : Session) :
    s.after names limits (text :: rest) =
      (s.runBy names limits text).1.reset.after names limits rest :=
  List.foldl_cons

/-- **Many texts.** They run alike, and the session is sound after them. -/
theorem after_together {names : Names} (hnames : names.Agree Φ) {s : Session} (hs : s.Sound Φ)
    {texts : List String} (htexts : ∀ text ∈ texts, SitesSatisfy Φ text) (limits : Limits) :
    s.after names limits texts = s.after .byDistance limits texts ∧
      (s.after .byDistance limits texts).Sound Φ := by
  induction texts generalizing s with
  | nil =>
    rw [after_nil, after_nil]
    exact ⟨rfl, hs⟩
  | cons text rest ih =>
    obtain ⟨htext, hrest⟩ := List.forall_mem_cons.mp htexts
    obtain ⟨hsame, hsound, -⟩ := runBy_together hnames hs htext limits
    rw [run] at hsame hsound
    rw [after_cons, after_cons, hsame]
    exact ih hsound.reset hrest

end Session

/-- **Links and frames never drift apart.** Texts are run one after the other with honest
functions of the host. If the run of one of them ends in a fault, the fault is an assignment to a
local variable that is written in the initializer of the declaration of that variable, in the
innermost scope around the assignment, in one of the accepted texts run so far. Hence no distance
leads off the chain of frames, no frame at the end of a distance lacks the name that is read, and
no `super` is without its frame. -/
theorem fault_ownInitializer {answers : Answers} (hanswers : answers.Honest) (report : Report)
    (natives : List Native) (clock : Float) (limits : Limits) (earlier : List String)
    (text : String) {what : Fault}
    (h : ((Session.after .byDistance limits earlier
      ⟨report, Machine.initial natives clock, answers⟩).run limits text).2 =
        some (.fault what)) :
    ∃ origin ∈ earlier ++ [text], ∃ program, Accepted origin program ∧ ∃ site ∈ sites program,
      site.AssignsOwnInitializer ∧ what = .unassignable site.token := by
  -- a site is followed back to the text that it stands in
  let Φ (site : Site Place) : Prop :=
    ∃ origin ∈ earlier ++ [text], ∃ program, Accepted origin program ∧ site ∈ sites program
  have hsites (origin : String) (horigin : origin ∈ earlier ++ [text]) :
      Session.SitesSatisfy Φ origin :=
    fun program haccepted site hsite => ⟨origin, horigin, program, haccepted, hsite⟩
  have hinitial := Session.sound_initial (Φ := Φ) hanswers report natives clock
  obtain ⟨-, hafter⟩ := Session.after_together Names.agree_byDistance hinitial
    (fun origin horigin => hsites origin (List.mem_append_left _ horigin)) limits
  obtain ⟨-, -, hfault⟩ := Session.runBy_together Names.agree_byDistance hafter
    (hsites text (List.mem_append_right _ (List.mem_singleton_self _))) limits
  obtain ⟨site, ⟨origin, horigin, program, haccepted, hsite⟩, hown, hwhat⟩ := hfault what h
  exact ⟨origin, horigin, program, haccepted, site, hsite, hown, hwhat⟩

/-- A text that makes a function, for a later one to call. -/
def makeCounter : String :=
  "fun make() \x7b var i = nil; fun next() \x7b return i; \x7d return next; \x7d var next = make();"

/-- A text that calls the function of an earlier one, and then assigns to a local variable in its
own initializer. -/
def assignTooEarly : String := "next(); \x7b var a = (a = nil); \x7d"

/-- The exception at work: the call of the older function goes well, and the assignment does not. -/
theorem fault_ownInitializer_assignTooEarly :
    Answers.usual.Honest ∧
      ((Session.after .byDistance ⟨3, 1⟩ [makeCounter]
        ⟨.quiet "", .initial Native.all 0, .usual⟩).run ⟨3, 1⟩ assignTooEarly).2 =
          some (.fault (.unassignable ⟨.identifier, "a", none, 1, 19⟩)) ∧
      ∃ origin ∈ [makeCounter] ++ [assignTooEarly], ∃ program, Accepted origin program ∧
        ∃ site ∈ sites program, site.AssignsOwnInitializer ∧
          Fault.unassignable ⟨.identifier, "a", none, 1, 19⟩ = .unassignable site.token := by
  have hrun : ((Session.after .byDistance ⟨3, 1⟩ [makeCounter]
      ⟨.quiet "", .initial Native.all 0, .usual⟩).run ⟨3, 1⟩ assignTooEarly).2 =
        some (.fault (.unassignable ⟨.identifier, "a", none, 1, 19⟩)) := by
    decide +kernel
  exact ⟨Answers.honest_usual, hrun,
    fault_ownInitializer Answers.honest_usual _ _ _ _ _ _ hrun⟩

end LoxInterpreter
