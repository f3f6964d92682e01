import LoxInterpreter.CommandLine.Perform
import LoxInterpreter.Proofs.Run.Sessions
import LoxInterpreter.Proofs.Twin.Pieces

/-!
# Interactive sessions

An interactive session goes on whatever its lines do, with one exception: a line whose run ends in a
fault ends the session, and the one fault there is, is the assignment to a local variable in its own
initializer.

* `Reporting.BlamesText` says that giving up leaves a report sick; so does every step of checking.
  Hence a line has issues exactly if it is not accepted (`Session.hasComplaint_run_iff`).
* `Session.Answered` says how lines are answered one after the other, each from a fresh start.
* `interact_answered` puts this together with the prompts and the exit status.
-/

namespace LoxInterpreter

/-! ### Giving up -/

namespace Reporting

variable {α β : Type} {r r' : Report}

/-- If the step gives up, the report has an issue. -/
def BlamesText (act : Reporting α) : Prop :=
  ∀ r why r', act r = .error why r' → r'.sick = true

theorem blamesText_pure (a : α) : BlamesText (pure a) := fun _ _ _ h => by cases h

theorem blamesText_get : BlamesText get := fun _ _ _ h => by cases h

theorem blamesText_modify (f : Report → Report) : BlamesText (modify f) := fun _ _ _ h => by
  cases h

theorem BlamesText.bind {act : Reporting α} {f : α → Reporting β} (h : BlamesText act)
    (hf : ∀ a, BlamesText (f a)) : BlamesText (act >>= f) := by
  intro r why r' herror
  replace herror : EStateM.bind act f r = .error why r' := herror
  rw [EStateM.bind] at herror
  split at herror
  · next a r₁ ha => exact hf a r₁ why r' herror
  · next why' r₁ ha =>
    cases herror
    exact h r why r' ha

theorem BlamesText.forM {f : α → Reporting PUnit} (hf : ∀ a, BlamesText (f a)) (as : List α) :
    BlamesText (as.forM f) := by
  induction as with
  | nil => exact blamesText_pure _
  | cons a as ih => exact (hf a).bind fun _ => ih

/-- The issue on which a report gives up is in the report. -/
theorem blamesText_issue (i : Issue) : BlamesText (issue i) := by
  intro r why r' h
  rw [issue_eq] at h
  split at h <;> cases h
  simp [Report.sick]

theorem blamesText_error (token : Token) (message : String) : BlamesText (error token message) :=
  blamesText_get.bind fun _ => blamesText_issue _

theorem blamesText_errorAtPlace (line : Int) (offset : Nat) (message : String) :
    BlamesText (errorAtPlace line offset message) :=
  blamesText_get.bind fun _ => blamesText_issue _

theorem blamesText_parseText (text : String) : BlamesText (parseText text) := by
  have hscan : BlamesText (scanText text) :=
    (blamesText_modify _).bind fun _ =>
      (BlamesText.forM (fun _ => blamesText_errorAtPlace _ _ _) _).bind fun _ => blamesText_pure _
  refine hscan.bind fun scanned => ?_
  exact (BlamesText.forM (fun _ => blamesText_error _ _) _).bind fun _ => blamesText_pure _

theorem blamesText_link (statements : List (Stmt Blank)) : BlamesText (link statements) :=
  (BlamesText.forM (fun _ => blamesText_error _ _) _).bind fun _ => blamesText_pure _

/-- **Checking gives up on issues only.** -/
theorem blamesText_check (text : String) : BlamesText (check text) := by
  refine (blamesText_parseText text).bind fun statements => blamesText_get.bind fun r => ?_
  split
  · exact blamesText_pure _
  · refine (blamesText_modify _).bind fun _ => (blamesText_link statements).bind fun linked =>
      blamesText_get.bind fun r => ?_
    split
    · exact blamesText_pure _
    · exact (blamesText_modify _).bind fun _ => blamesText_pure _

/-- A text that does not get through checking leaves the report sick. -/
theorem sick_of_check_eq_ok_none {text : String} (h : check text r = .ok none r') :
    r'.sick = true := by
  rw [check] at h
  obtain ⟨statements, r₁, -, h⟩ := bind_eq_ok h
  obtain ⟨_, _, hget, h⟩ := bind_eq_ok h
  cases hget
  split at h
  · next hsick =>
    cases h
    exact hsick
  · obtain ⟨_, r₂, -, h⟩ := bind_eq_ok h
    obtain ⟨linked, r₃, -, h⟩ := bind_eq_ok h
    obtain ⟨_, _, hget, h⟩ := bind_eq_ok h
    cases hget
    split at h
    · next hsick =>
      cases h
      exact hsick
    · obtain ⟨_, r₄, -, h⟩ := bind_eq_ok h
      cases h

end Reporting

/-! ### Complaining -/

namespace Report

variable (r : Report)

theorem exists_console_foldl (rule : String) (is : List Issue) :
    ∃ added, (is.foldl (fun r i => (r.writeLine rule).writeLine i.text) r).console =
      r.console ++ added := by
  induction is generalizing r with
  | nil => exact ⟨"", String.append_empty.symm⟩
  | cons i is ih =>
    obtain ⟨added, hadded⟩ := ih ((r.writeLine rule).writeLine i.text)
    exact ⟨rule ++ "\n" ++ i.text ++ "\n" ++ added, by
      rw [List.foldl_cons, hadded]
      simp only [writeLine, String.append_assoc]⟩

theorem complaints_eq_nil_iff : r.complaints = [] ↔ r.hasComplaint = false := by
  rw [complaints, List.append_eq_nil_iff, hasComplaint, Bool.or_eq_false_iff]
  refine and_congr ?_ ?_
  · simp [sick]
  · cases r.failure <;> simp

/-- A complaint is seen on the console. -/
theorem exists_console_complain :
    ∃ added, r.complain.console = r.console ++ added ∧ (added ≠ "" ↔ r.hasComplaint = true) := by
  have hiff := r.complaints_eq_nil_iff
  rw [complain]
  split
  · next hnil => exact ⟨"", String.append_empty.symm, by simp [hiff.mp hnil]⟩
  · next complaints hne =>
    generalize r.dice.outburst = thrown
    obtain ⟨outburst, dice⟩ := thrown
    obtain ⟨added, hadded⟩ := exists_console_foldl
      (({ r with dice := dice }.writeLine ("".pushn '*' 60)).writeLine outburst)
      (String.join (List.replicate 20 "  -")) r.complaints
    refine ⟨"".pushn '*' 60 ++ "\n" ++ outburst ++ "\n" ++ added, hadded.trans ?_, ?_⟩
    · simp only [writeLine, String.append_assoc]
    · have hcomplaint : r.hasComplaint = true := by
        simpa using fun h => hne (hiff.mpr h)
      refine ⟨fun _ => hcomplaint, fun _ h => ?_⟩
      -- there is a line break at least
      have hlength := congrArg String.length h
      simp only [String.length_append] at hlength
      have : "\n".length = 1 := rfl
      have : "".length = 0 := rfl
      omega

end Report

/-! ### Lines -/

/-- A text is accepted as one program. -/
theorem Accepted.unique {text : String} {program program' : List (Stmt Place)}
    (h : Accepted text program) (h' : Accepted text program') : program = program' := by
  obtain ⟨-, -, -, hprogram⟩ := h.nothing_wrong
  obtain ⟨-, -, -, hprogram'⟩ := h'.nothing_wrong
  rw [hprogram, hprogram']

namespace Session

variable {Φ : Site Place → Prop} {limits : Run.Limits} {line : String} {s : Session}

/-- A fresh start: there is nothing in the report, and the run is in the frame of the globals. -/
structure Ready (s : Session) : Prop where
  issues : s.report.issues = #[]
  failure : s.report.failure = none
  current : s.machine.current = Machine.globals

theorem Ready.hasComplaint (h : s.Ready) : s.report.hasComplaint = false := by
  rw [Report.hasComplaint, Report.sick, h.issues, h.failure]
  rfl

/-- A line to complain about: it is not accepted, or its program fails. -/
def Objectionable (limits : Run.Limits) (line : String) (s : Session) : Prop :=
  (∀ program, ¬Accepted line program) ∨
    ∃ program token cause machine, Accepted line program ∧
      Run.interpret (limits.hostBy .byDistance s.answers) program s.machine =
        .error (.failure token cause) machine

/-- What is not accepted leaves an issue. -/
theorem sick_run_of_not_accepted (h : ∀ program, ¬Accepted line program) :
    (s.run limits line).1.report.sick = true := by
  rw [run, runBy]
  cases hcheck : Reporting.check line s.report with
  | error why report => exact Reporting.blamesText_check line _ _ _ hcheck
  | ok checked report =>
    cases checked with
    | none => exact Reporting.sick_of_check_eq_ok_none hcheck
    | some program => exact absurd ⟨_, _, hcheck⟩ (h program)

/-- **Complaints are about the line.** From a fresh start, there is something to complain about
after a line exactly if the line is not accepted or its program fails. -/
theorem hasComplaint_run_iff (h : s.Ready) :
    (s.run limits line).1.report.hasComplaint = true ↔ s.Objectionable limits line := by
  by_cases haccepted : ∃ program, Accepted line program
  · obtain ⟨program, haccepted⟩ := haccepted
    obtain ⟨report, hreport, hrun⟩ := exists_run_eq_conclude haccepted h.hasComplaint limits
    have hnot {Q : Prop} (hQ : report.hasComplaint = true) : Q :=
      absurd (hQ.symm.trans hreport) (by decide)
    have hobjection : s.Objectionable limits line ↔ ∃ token cause machine,
        Run.interpret (limits.hostBy .byDistance s.answers) program s.machine =
          .error (.failure token cause) machine := by
      constructor
      · rintro (hnone | ⟨program', token, cause, machine, haccepted', hfails⟩)
        · exact absurd haccepted (hnone program)
        · rw [haccepted'.unique haccepted] at hfails
          exact ⟨token, cause, machine, hfails⟩
      · rintro ⟨token, cause, machine, hfails⟩
        exact Or.inr ⟨program, token, cause, machine, haccepted, hfails⟩
    rw [hrun, hobjection]
    cases hresult : Run.interpret (limits.hostBy .byDistance s.answers) program s.machine with
    | ok _ machine => exact ⟨fun h => hnot h, fun ⟨_, _, _, h⟩ => by cases h⟩
    | error e machine =>
      cases e with
      | failure token cause =>
        exact ⟨fun _ => ⟨token, cause, machine, rfl⟩, fun _ => Bool.or_true _⟩
      | fault | exhausted => exact ⟨fun h => hnot h, fun ⟨_, _, _, h⟩ => by cases h⟩
  · have hnone := not_exists.mp haccepted
    have hsick : (s.run limits line).1.report.sick = true := sick_run_of_not_accepted hnone
    refine ⟨fun _ => Or.inl hnone, fun _ => ?_⟩
    rw [Report.hasComplaint, hsick, Bool.true_or]

/-- The frame of a sound session between texts is that of the globals. -/
theorem Sound.current_eq (h : s.Sound Φ) : s.machine.current = Machine.globals := by
  obtain ⟨-, w, hmachine, hhere⟩ := h
  rw [← hmachine]
  exact (hhere.sound.globals _ hhere.stands.standsFor).1

/-- **How lines are answered.** Every line has a fresh start. What it prints is shown, and then
comes a complaint if there is one; after that the next line has its turn. A line that escapes is the
last. -/
inductive Answered (limits : Run.Limits) :
    List String → Session → List Exchange → Option Escape → Prop where
  | done {s : Session} : s.Ready → Answered limits [] s [] none
  | next {line : String} {rest : List String} {s : Session} {complaint : String}
      {exchanges : List Exchange} {escape : Option Escape} : s.Ready →
    (∀ e, (s.run limits line).2 = some e → ∃ why, e = .givingUp why) →
    (complaint ≠ "" ↔ s.Objectionable limits line) →
    Answered limits rest (s.run limits line).1.settle.drain.2 exchanges escape →
    Answered limits (line :: rest) s (⟨(s.run limits line).1.machine.output,
      (s.run limits line).1.report.console ++ complaint⟩ :: exchanges) escape
  | escaped {line : String} {rest : List String} {s : Session} {escape : Escape} : s.Ready →
    (s.run limits line).2 = some escape → (∀ why, escape ≠ .givingUp why) →
    Answered limits (line :: rest) s
      [⟨(s.run limits line).1.machine.output, (s.run limits line).1.report.console⟩] (some escape)

/-- If no line escapes, all lines are answered. -/
theorem Answered.length_eq {lines : List String} {exchanges : List Exchange}
    {escape : Option Escape} (h : Answered limits lines s exchanges escape)
    (hescape : escape = none) : exchanges.length = lines.length := by
  induction h with
  | done => rfl
  | next _ _ _ _ ih => rw [List.length_cons, List.length_cons, ih hescape]
  | escaped => cases hescape

/-- Complaining, forgiving and taking away what has been written keep a session sound. -/
theorem Sound.settle_drain (h : s.Sound Φ) : s.settle.drain.2.Sound Φ := by
  obtain ⟨honest, w, hmachine, hhere⟩ := h
  have hset := World.grows_set_of_eq hhere.sound (m := { w.machine with output := "" }) rfl
    (fun _ _ h => h) rfl rfl fun _ _ _ hf _ => .inl hf
  refine ⟨honest, w.set { w.machine with output := "" }, ?_, hhere.follow ⟨hset.1, hset.2, rfl⟩⟩
  show { w.machine with output := "" } = { s.machine with output := "" }
  rw [hmachine]

/-- Forgiven, a line leaves nothing in the report. -/
theorem Sound.ready_settle_drain (h : s.Sound Φ) : s.settle.drain.2.Ready :=
  ⟨rfl, rfl, h.settle_drain.current_eq⟩

/-- What is shown of a line that has been settled. -/
theorem exists_exchange_eq (s : Session) : ∃ complaint,
    s.settle.drain.1 = ⟨s.machine.output, s.report.console ++ complaint⟩ ∧
      (complaint ≠ "" ↔ s.report.hasComplaint = true) := by
  by_cases h : s.report.hasComplaint = true
  · obtain ⟨complaint, hconsole, hiff⟩ := s.report.exists_console_complain
    refine ⟨complaint, ?_, hiff⟩
    rw [settle, if_pos h, ← hconsole]
    rfl
  · refine ⟨"", ?_, fun hne => absurd rfl hne, fun h' => absurd h' h⟩
    rw [settle, if_neg h, String.append_empty]
    rfl

/-- A line that does not escape is settled. -/
theorem respond_of_settled (h : ∀ e, (s.run limits line).2 = some e → ∃ why, e = .givingUp why) :
    s.respond limits line = ⟨(s.run limits line).1.settle.drain.1,
      (s.run limits line).1.settle.drain.2, none⟩ := by
  rw [respond]
  generalize s.run limits line = ran at h ⊢
  obtain ⟨s', escape⟩ := ran
  cases escape with
  | none => rfl
  | some e =>
    obtain ⟨why, rfl⟩ := h e rfl
    rfl

theorem respond_of_escaped {escape : Escape} (h : (s.run limits line).2 = some escape)
    (hescape : ∀ why, escape ≠ .givingUp why) :
    s.respond limits line = ⟨⟨(s.run limits line).1.machine.output,
      (s.run limits line).1.report.console⟩, (s.run limits line).1.drain.2, some escape⟩ := by
  rw [respond]
  generalize s.run limits line = ran at h ⊢
  obtain ⟨s', escape'⟩ := ran
  cases h
  cases escape with
  | givingUp why => exact absurd rfl (hescape why)
  | fault | exhausted => rfl

/-- **Lines are answered** from any sound session with a fresh start, and an escape is explained. -/
theorem answered_converse {lines : List String} {s : Session} (hs : s.Sound Φ) (hready : s.Ready)
    (hlines : ∀ line ∈ lines, SitesSatisfy Φ line) (limits : Run.Limits) :
    Answered limits lines s (s.converse limits lines).1 (s.converse limits lines).2 ∧
      ∀ e, (s.converse limits lines).2 = some e → e = .exhausted ∨
        ∃ what, e = .fault what ∧ (Interruption.fault what).Explained Φ := by
  induction lines generalizing s with
  | nil => exact ⟨.done hready, fun e he => by cases he⟩
  | cons line rest ih =>
    obtain ⟨hline, hrest⟩ := List.forall_mem_cons.mp hlines
    obtain ⟨-, hsound, hfault⟩ := runBy_together Run.Names.agree_byDistance hs hline limits
    rw [converse]
    by_cases hsettled : ∀ e, (s.run limits line).2 = some e → ∃ why, e = .givingUp why
    · rw [respond_of_settled hsettled]
      obtain ⟨complaint, hexchange, hcomplaint⟩ := exists_exchange_eq (s.run limits line).1
      rw [hasComplaint_run_iff hready] at hcomplaint
      obtain ⟨hanswered, hescape⟩ := ih hsound.settle_drain hsound.ready_settle_drain hrest
      dsimp only
      rw [hexchange]
      exact ⟨.next hready hsettled hcomplaint hanswered, hescape⟩
    · -- the line is the last one
      obtain ⟨escape, hsome, hnot⟩ : ∃ escape, (s.run limits line).2 = some escape ∧
          ∀ why, escape ≠ .givingUp why := by
        simpa using hsettled
      rw [respond_of_escaped hsome hnot]
      refine ⟨.escaped hready hsome hnot, fun e he => ?_⟩
      cases he
      cases escape with
      | givingUp why => exact absurd rfl (hnot why)
      | fault what => exact Or.inr ⟨what, rfl, hfault what hsome⟩
      | exhausted => exact Or.inl rfl

end Session

/-! ### The program -/

namespace CommandLine

/-- **An interactive session answers every line.** Each line has a fresh start, and there is a
complaint after it exactly if it is not accepted or its program fails. If no line escapes, there is
one prompt for each line and one more, and the program ends with success. A line escapes only by an
assignment to a local variable in its own initializer, written in one of the lines, or if a loop
goes round more often than it may. -/
theorem interact_answered (stage : Stage) (options : Options) (lines : List String) :
    ∃ exchanges escape,
      (openSession stage options).Answered stage.limits lines exchanges escape ∧
      (interact stage options lines).console = String.join (exchanges.map (·.console)) ∧
      (escape = none ∧ exchanges.length = lines.length ∧
          (interact stage options lines).output =
            String.join (exchanges.map (prompt ++ ·.output)) ++ prompt ++ "\n" ∧
          (interact stage options lines).ending = .exit ExitStatus.success ∨
        ∃ e, escape = some e ∧ (interact stage options lines).ending = .escaped e ∧
          (interact stage options lines).output =
            String.join (exchanges.map (prompt ++ ·.output)) ∧
          (e = .exhausted ∨ ∃ line ∈ lines, ∃ program, Accepted line program ∧
            ∃ site ∈ sites program, site.AssignsOwnInitializer ∧
              e = .fault (.unassignable site.token))) := by
  -- a site is followed back to the line that it stands in
  let Φ (site : Site Place) : Prop :=
    ∃ line ∈ lines, ∃ program, Accepted line program ∧ site ∈ sites program
  have hopen : (openSession stage options).Sound Φ :=
    Session.sound_initial Answers.honest_usual _ [.clock] stage.clock
  have hready : (openSession stage options).Ready := ⟨rfl, rfl, rfl⟩
  obtain ⟨hanswered, hescape⟩ := Session.answered_converse hopen hready
    (fun line hline program haccepted site hsite => ⟨line, hline, program, haccepted, hsite⟩)
    stage.limits
  rw [interact]
  generalize (openSession stage options).converse stage.limits lines = conversed
    at hanswered hescape ⊢
  obtain ⟨exchanges, escape⟩ := conversed
  refine ⟨exchanges, escape, hanswered, ?_⟩
  cases escape with
  | none => exact ⟨rfl, Or.inl ⟨rfl, hanswered.length_eq rfl, rfl, rfl⟩⟩
  | some e =>
    refine ⟨rfl, Or.inr ⟨e, rfl, rfl, rfl, ?_⟩⟩
    rcases hescape e rfl with rfl | ⟨what, rfl, site, ⟨line, hline, program, haccepted, hsite⟩,
      hown, rfl⟩
    · exact Or.inl rfl
    · exact Or.inr ⟨line, hline, program, haccepted, site, hsite, hown, rfl⟩

/-- Lines of which the first assigns to a local variable in its own initializer. -/
def assigningLines : List String := ["\x7b var a = (a = nil); \x7d\n", "print nil;\n"]

/-- The first line ends the session, and the second one is never answered. -/
theorem interact_assigningLines :
    (interact ⟨⟨3, 1⟩, default, 0⟩ ⟨none, false, false, 0⟩ assigningLines).ending =
        .escaped (.fault (.unassignable ⟨.identifier, "a", none, 1, 11⟩)) ∧
      (interact ⟨⟨3, 1⟩, default, 0⟩ ⟨none, false, false, 0⟩ assigningLines).output = prompt := by
  decide +kernel

end CommandLine

end LoxInterpreter
