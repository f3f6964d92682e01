import LoxInterpreter.Session
import LoxInterpreter.Proofs.Accepted
import LoxInterpreter.Proofs.Grammar.Exactness
import LoxInterpreter.Proofs.Twin.Moved
import LoxInterpreter.Proofs.Twin.Outcome

/-!
# A session is a program cut in pieces

Two texts that are accepted can be run one after the other on one machine, or as one text with a
line feed between them. The one text is accepted, its program is that of the first text followed by
that of the second, moved (`Accepted.append`), and it comes to the same (`Session.account_append`),
up to the place of a token to blame, which tells the text it is from (`eq_of_pieceGuise`).

`Session.Account` is what can be told of a session after a text.
-/

namespace LoxInterpreter

/-! ### Programs one after the other -/

theorem Scopes.enter_nil (s : Stmt Blank) : Scopes.enter [] s = [] := by
  rw [enter]
  cases s.declared? <;> rfl

theorem linkProgram_append (program program' : List (Stmt Blank)) :
    linkProgram (program ++ program') = linkProgram program ++ linkProgram program' := by
  rw [linkProgram, linkProgram, linkProgram]
  induction program with
  | nil => rfl
  | cons s rest ih =>
    rw [List.cons_append, Stmt.linkBody, Stmt.linkBody, Scopes.enter_nil, ih, List.cons_append]

theorem scopeMistakes_append (program program' : List (Stmt Blank)) :
    scopeMistakes (program ++ program') = scopeMistakes program ++ scopeMistakes program' := by
  have henter (s : Stmt Blank) : Surroundings.topLevel.enter s = .topLevel := by
    rw [Surroundings.enter, Surroundings.topLevel, Scopes.enter_nil]
  rw [scopeMistakes, scopeMistakes, scopeMistakes]
  induction program with
  | nil => rfl
  | cons s rest ih =>
    rw [List.cons_append, Stmt.scopeMistakesBody, Stmt.scopeMistakesBody, henter, ih]
    exact (List.append_assoc _ _ _).symm

theorem Stmt.BodyTwins.append {G : Guise} {layers : List Layer}
    {program program' rest rest' : List (Stmt Place)} (h : BodyTwins G layers program program')
    (hrest : BodyTwins G layers rest rest') :
    BodyTwins G layers (program ++ rest) (program' ++ rest') := by
  induction program generalizing program' with
  | nil =>
    cases h
    exact hrest
  | cons s program ih =>
    cases h with
    | cons hs h => exact .cons hs (ih h)

/-- Programs are run one after the other. -/
theorem Run.interpret_append (host : Host) (program program' : List (Stmt Place)) :
    interpret host (program ++ program') =
      interpret host program >>= fun _ => interpret host program' := by
  induction program with
  | nil => rfl
  | cons s rest ih =>
    rw [List.cons_append, interpret, interpret, bind_assoc]
    refine congrArg (execute host s >>= ·) (funext fun c => ?_)
    cases c with
    | normal => exact ih
    | returning => rfl

/-- A program that comes to its end hands its machine on. -/
theorem Run.interpret_append_of_ok {host : Host} {program : List (Stmt Place)} {m m' : Machine}
    {u : Unit} (h : interpret host program m = .ok u m') (program' : List (Stmt Place)) :
    interpret host (program ++ program') m = interpret host program' m' := by
  rw [interpret_append]
  show EStateM.bind _ _ m = _
  rw [EStateM.bind, h]

/-- A program that ends early is the end. -/
theorem Run.interpret_append_of_error {host : Host} {program : List (Stmt Place)} {m m' : Machine}
    {e : Interruption} (h : interpret host program m = .error e m')
    (program' : List (Stmt Place)) : interpret host (program ++ program') m = .error e m' := by
  rw [interpret_append]
  show EStateM.bind _ _ m = _
  rw [EStateM.bind, h]

/-! ### Texts one after the other -/

/-- The program of a text that comes after another and a line feed, before it is linked. -/
def statementsBehind (first second : String) : List (Stmt Blank) :=
  Stmt.movedBodyBy (.behind first) (parse (scan second).tokens).statements

/-- **Two accepted texts** with a line feed between them are accepted. -/
theorem Accepted.append {first second : String} {program program' : List (Stmt Place)}
    (h : Accepted first program) (h' : Accepted second program') :
    Accepted (first ++ "\n" ++ second) (program ++ linkProgram (statementsBehind first second)) := by
  obtain ⟨hlexical, hparsed, hscopes, rfl⟩ := h.nothing_wrong
  obtain ⟨hlexical', hparsed', hscopes', -⟩ := h'.nothing_wrong
  have hderived := (Parse.parse_sound hparsed).append
    ((Parse.parse_sound hparsed').movedBy (.behind first))
  have hmoved : scopeMistakes (statementsBehind first second) = [] := by
    rw [scopeMistakes, statementsBehind, Stmt.scopeMistakesBody_movedBy]
    exact congrArg (movedMistakes _) hscopes'
  rw [accepted_iff, tokens_append_feed hlexical, parse_complete hderived,
    mistakes_append_feed hlexical, hlexical', scopeMistakes_append, linkProgram_append]
  exact ⟨rfl, rfl, List.append_eq_nil_iff.mpr ⟨hscopes, hmoved⟩, rfl⟩

/-- A token of the first text stays as it is, one of the second moves. -/
def pieceGuise (first second : String) : Guise where
  of t t' := (t ∈ (scan first).tokens ∧ t' = t) ∨
    (t ∈ (scan second).tokens ∧ t' = t.movedBy (.behind first))
  kind := by
    rintro t t' (⟨-, rfl⟩ | ⟨-, rfl⟩) <;> rfl

theorem Token.movedBy_injective (origin : Position) :
    Function.Injective (Token.movedBy · origin) := by
  rintro ⟨kind, lexeme, literal, line, offset⟩ ⟨kind', lexeme', literal', line', offset'⟩ h
  simp only [movedBy, Token.mk.injEq] at h ⊢
  obtain ⟨hkind, hlexeme, hliteral, hline, hoffset⟩ := h
  exact ⟨hkind, hlexeme, hliteral, (Int.add_left_inj _).mp hline, Nat.add_right_cancel hoffset⟩

/-- **No token is mistaken for another.** A token of the one text comes from one token of the two:
those of the first text end before those of the second begin. -/
theorem eq_of_pieceGuise {first second : String} (hfirst : (scan first).mistakes = [])
    {t u whole : Token} (ht : (pieceGuise first second).of t whole)
    (hu : (pieceGuise first second).of u whole) : u = t := by
  have hordered := pairwise_offset_tokens (first ++ "\n" ++ second)
  rw [tokens_append_feed hfirst, List.pairwise_append] at hordered
  have happart {a b : Token} (ha : a ∈ (scan first).tokens) (hb : b ∈ (scan second).tokens) :
      a ≠ b.movedBy (.behind first) := by
    rintro rfl
    exact Nat.lt_irrefl _ (hordered.2.2 _ ha _ (List.mem_map_of_mem hb))
  rcases ht with ⟨ht, rfl⟩ | ⟨ht, rfl⟩ <;> rcases hu with ⟨hu, heq⟩ | ⟨hu, heq⟩
  · exact heq.symm
  · exact absurd heq (happart ht hu)
  · exact absurd heq.symm (happart hu ht)
  · exact Token.movedBy_injective _ heq.symm

theorem Token.movedBy_start (t : Token) : t.movedBy .start = t :=
  congrArg (fun line => { t with line }) (Int.add_zero t.line)

/-- A program that does not move is the same. -/
theorem Stmt.movedBodyBy_start {tokens : List Token} {program : List (Stmt Blank)}
    (h : Grammar.Program tokens program) : movedBodyBy .start program = program := by
  have hmoved := h.movedBy .start
  rw [Grammar.moved, funext Token.movedBy_start, List.map_id'] at hmoved
  exact congrArg Parsed.statements ((parse_complete hmoved).symm.trans (parse_complete h))

/-- The programs of two texts are twins of what becomes of them in one text. -/
theorem Accepted.twins_append {first second : String} {program program' : List (Stmt Place)}
    (h : Accepted first program) (h' : Accepted second program') :
    Stmt.BodyTwins (pieceGuise first second) [] (program ++ program')
      (program ++ linkProgram (statementsBehind first second)) := by
  obtain ⟨-, hparsed, -, rfl⟩ := h.nothing_wrong
  obtain ⟨-, hparsed', -, rfl⟩ := h'.nothing_wrong
  have hderived := Parse.parse_sound hparsed
  have hstays := Stmt.twins_linkBody_movedBodyBy _ [] (eachToken_of_program hderived
    (P := (pieceGuise first second).Lets (.along .start)) fun t ht => .inl ⟨ht, t.movedBy_start⟩)
  rw [Stmt.movedBodyBy_start hderived] at hstays
  have hmoves := Stmt.twins_linkBody_movedBodyBy _ []
    (eachToken_of_program (Parse.parse_sound hparsed')
      (P := (pieceGuise first second).Lets (.along (.behind first))) fun t ht => .inr ⟨ht, rfl⟩)
  exact hstays.append hmoves

/-! ### Texts in a session -/

theorem Report.failure_eq_none {r : Report} (h : r.hasComplaint = false) : r.failure = none :=
  Option.isNone_iff_eq_none.mp (Option.isSome_eq_false_iff.mp (Bool.or_eq_false_iff.mp h).2)

namespace Session

/-- What can be told of a session after a text. -/
structure Account where
  /-- Everything printed. -/
  output : String
  /-- The globals in the order of their names, with their texts. -/
  globals : List (String × String)
  /-- The failure of the last program. -/
  failure : Option Failure
  /-- How the last run escaped. -/
  escape : Option Escape
  deriving DecidableEq

/-- What can be told after running a text. -/
def account (result : Session × Option Escape) : Account :=
  ⟨result.1.machine.output, result.1.machine.globalTexts, result.1.report.failure, result.2⟩

/-- The last program came to its end. -/
def Account.EndedWell (a : Account) : Prop := a.failure = none ∧ a.escape = none

instance (a : Account) : Decidable a.EndedWell := instDecidableAnd

end Session

/-- The failures are the same but for the guise of the token that is to blame. -/
structure Failure.Twins (G : Guise) (f f' : Failure) : Prop where
  token : G.of f.token f'.token
  message : f'.message = f.message

/-- The runs escaped alike. -/
inductive Escape.Twins (G : Guise) : Escape → Escape → Prop where
  | fault {what what' : Fault} : what.Twins G what' → Twins G (.fault what) (.fault what')
  | exhausted : Twins G .exhausted .exhausted

namespace Session

/-- The same can be told of both sessions, but for the guise of the token that is to blame. -/
structure Account.Twins (G : Guise) (a a' : Account) : Prop where
  output : a'.output = a.output
  globals : a'.globals = a.globals
  failure : Option.Rel (Failure.Twins G) a.failure a'.failure
  escape : Option.Rel (Escape.Twins G) a.escape a'.escape

/-- What a session is after the run of a program, and how the run escaped. -/
def conclude (s : Session) : EStateM.Result Interruption Machine Unit → Session × Option Escape
  | .ok _ machine => ({ s with machine }, none)
  | .error (.failure token cause) machine =>
    ({ s with report := { s.report with failure := some ⟨token, cause.message⟩ }, machine }, none)
  | .error (.fault what) machine => ({ s with machine }, some (.fault what))
  | .error .exhausted machine => ({ s with machine }, some .exhausted)

/-- **An accepted text** runs as its program does, if there is nothing to complain about before. -/
theorem exists_run_eq_conclude {text : String} {program : List (Stmt Place)}
    (h : Accepted text program) {s : Session} (hs : s.report.hasComplaint = false)
    (limits : Run.Limits) : ∃ report : Report, report.hasComplaint = false ∧
      s.run limits text = conclude { s with report }
        (Run.interpret (limits.hostBy .byDistance s.answers) program s.machine) := by
  obtain ⟨hlexical, hparsed, hscopes, rfl⟩ := h.nothing_wrong
  obtain ⟨hhealthy, -⟩ := Bool.or_eq_false_iff.mp hs
  obtain ⟨report, hcheck, hissues, hfailure'⟩ :=
    Reporting.exists_check_eq_ok hlexical hparsed rfl hscopes (ne_true_of_eq_false hhealthy)
  refine ⟨report, ?_, ?_⟩
  · rw [Report.hasComplaint, Report.sick, hissues, hfailure']
    exact hs
  · rw [run, runBy, hcheck]
    dsimp only
    cases Run.interpret _ _ s.machine with
    | ok _ machine => rfl
    | error e machine => cases e <;> rfl

/-- What can be told depends on the report in nothing but the failure. -/
theorem account_conclude {s s' : Session} (h : s.report.failure = s'.report.failure)
    (result : EStateM.Result Interruption Machine Unit) :
    account (s.conclude result) = account (s'.conclude result) := by
  cases result with
  | ok _ machine => exact congrArg (Account.mk _ _ · _) h
  | error e machine =>
    cases e with
    | failure => rfl
    | fault | exhausted => exact congrArg (Account.mk _ _ · _) h

/-- Runs in step leave sessions of which the same can be told. -/
theorem twins_account {G : Guise} {p : Pairing} {Q : Pairing → Unit → Unit → Prop}
    {result result' : EStateM.Result Interruption Machine Unit}
    (h : Run.Lead G p Q result result') {s s' : Session} (hs : s.report.failure = none)
    (hs' : s'.report.failure = none) :
    (account (s.conclude result)).Twins G (account (s'.conclude result')) := by
  have hsame : Option.Rel (Failure.Twins G) s.report.failure s'.report.failure := by
    rw [hs, hs']
    exact .none
  cases h with
  | ok q hq _ => exact ⟨hq.sound.looksLike.output, hq.sound.globalTexts_eq, hsame, .none⟩
  | error q hq he =>
    have houtput := hq.sound.looksLike.output
    have hglobals := hq.sound.globalTexts_eq
    cases he with
    | failure cause ht => exact ⟨houtput, hglobals, .some ⟨ht, rfl⟩, .none⟩
    | fault hwhat => exact ⟨houtput, hglobals, hsame, .some (.fault hwhat)⟩
    | exhausted => exact ⟨houtput, hglobals, hsame, .some .exhausted⟩

/-- **A session is a program cut in pieces.** Two accepted texts with a line feed between them are
accepted. If the first comes to its end, it makes no difference on a fresh machine whether both are
run one after the other, with the report reset in between, or as one text: the output is the same,
so are the globals, and so is the failure, but for the place of a token of the second text. If the
first does not come to its end, the one text comes to what the first comes to. -/
theorem account_append {first second : String} {program program' : List (Stmt Place)}
    (hfirst : Accepted first program) (hsecond : Accepted second program') {answers : Answers}
    (honest : answers.Honest) (settled : answers.Settled) (natives : List Native) (clock : Float)
    (limits : Run.Limits) {report : Report} (hreport : report.hasComplaint = false) :
    let s : Session := ⟨report, .initial natives clock, answers⟩
    (∃ whole, Accepted (first ++ "\n" ++ second) whole) ∧
      ((account (s.run limits first)).EndedWell →
        (account ((s.run limits first).1.reset.run limits second)).Twins (pieceGuise first second)
          (account (s.run limits (first ++ "\n" ++ second)))) ∧
      (¬(account (s.run limits first)).EndedWell →
        account (s.run limits (first ++ "\n" ++ second)) = account (s.run limits first)) := by
  intro s
  have hwhole := hfirst.append hsecond
  obtain ⟨r, hr, hrun⟩ := exists_run_eq_conclude hfirst (s := s) hreport limits
  obtain ⟨r', hr', hrun'⟩ := exists_run_eq_conclude hwhole (s := s) hreport limits
  refine ⟨⟨_, hwhole⟩, ?_⟩
  rw [hrun, hrun']
  cases hresult : Run.interpret (limits.hostBy .byDistance s.answers) program s.machine with
  | ok u machine =>
    rw [Run.interpret_append_of_ok hresult]
    refine ⟨fun _ => ?_, fun hended => absurd ⟨Report.failure_eq_none hr, rfl⟩ hended⟩
    obtain ⟨p, hleft, hright, hhere⟩ :=
      Pairing.exists_initial (G := pieceGuise first second) natives clock
    have hlead := Run.inStep_interpret (Run.twins_hostBy honest settled limits) hhere
      (hfirst.twins_append hsecond)
    rw [Run.InStep, hleft, hright, Run.interpret_append_of_ok hresult,
      Run.interpret_append_of_ok hresult] at hlead
    obtain ⟨r'', hr'', hrun''⟩ :=
      exists_run_eq_conclude hsecond (s := ⟨r.reset, machine, answers⟩) rfl limits
    show (account (run limits second ⟨r.reset, machine, answers⟩)).Twins _ _
    rw [hrun'']
    exact twins_account hlead (Report.failure_eq_none hr'') (Report.failure_eq_none hr')
  | error e machine =>
    rw [Run.interpret_append_of_error hresult]
    refine ⟨fun hended => ?_, fun _ => account_conclude ?_ _⟩
    · cases e with
      | failure => cases hended.1
      | fault | exhausted => cases hended.2
    · exact (Report.failure_eq_none hr').trans (Report.failure_eq_none hr).symm

/-- A text that ends in a comment. -/
def definingText : String := "fun f(a) \x7b return a; \x7d // f"

/-- A text that uses what the other one declares, and fails in the end. -/
def failingText : String := "var b = f(f); b();"

/-- A function of the first text is called from the second, where the run fails. -/
theorem account_append_defining_failing :
    Accepted definingText (linkProgram (parse (scan definingText).tokens).statements) ∧
      Accepted failingText (linkProgram (parse (scan failingText).tokens).statements) ∧
      Answers.usual.Honest ∧ Answers.usual.Settled ∧ (Report.quiet "").hasComplaint = false ∧
      (account (run ⟨9, 9⟩ definingText (fresh (.quiet "") Native.all 0))).EndedWell ∧
      (account (run ⟨9, 9⟩ failingText
          (run ⟨9, 9⟩ definingText (fresh (.quiet "") Native.all 0)).1.reset)).Twins
        (pieceGuise definingText failingText)
        (account (run ⟨9, 9⟩ (definingText ++ "\n" ++ failingText)
          (fresh (.quiet "") Native.all 0))) ∧
      (account (run ⟨9, 9⟩ (definingText ++ "\n" ++ failingText)
        (fresh (.quiet "") Native.all 0))).failure.map (·.token.line) = some 2 := by
  have hfirst : Accepted definingText
      (linkProgram (parse (scan definingText).tokens).statements) :=
    accepted_of_nothing_wrong (by decide +kernel)
  have hsecond : Accepted failingText (linkProgram (parse (scan failingText).tokens).statements) :=
    accepted_of_nothing_wrong (by decide +kernel)
  have hreport : (Report.quiet "").hasComplaint = false := rfl
  obtain ⟨hended, hline⟩ :
      (account (run ⟨9, 9⟩ definingText (fresh (.quiet "") Native.all 0))).EndedWell ∧
        (account (run ⟨9, 9⟩ (definingText ++ "\n" ++ failingText)
          (fresh (.quiet "") Native.all 0))).failure.map (·.token.line) = some 2 := by
    decide +kernel
  obtain ⟨-, hsame, -⟩ := account_append hfirst hsecond Answers.honest_usual
    Answers.settled_usual Native.all 0 ⟨9, 9⟩ hreport
  exact ⟨hfirst, hsecond, Answers.honest_usual, Answers.settled_usual, hreport, hended,
    hsame hended, hline⟩

end Session

end LoxInterpreter
