import LoxInterpreter.Proofs.Twin.Pieces
import LoxInterpreter.Proofs.Twin.Relocated

/-!
# Layout is insignificant

A text in another layout has the same tokens in other places (`scan_of_laidOut`). So it has the same
tree (`parse_relocated`), it is accepted alike (`exists_accepted_iff_of_relocated`), and a run of it
is in step with a run of the text, because the trees are twins. Of both runs the same can be told,
up to the place of the token to blame (`Session.layout_insignificant`).
-/

namespace LoxInterpreter

variable {text laid : String} {ρ : Relocation}

/-! ### The same tokens in other places -/

/-- The tokens of a text that are put in other places. -/
def Relocation.guise (ρ : Relocation) (tokens : List Token) : Guise where
  of t t' := t ∈ tokens ∧ t' = ρ t
  kind := by
    rintro t t' ⟨-, rfl⟩
    rfl

/-- **A layout relocates tokens.** -/
theorem exists_relocation_of_laidOut (h : LaidOut ((scan text).tokens.map Token.lexeme) laid) :
    ∃ ρ : Relocation, (scan laid).tokens = (scan text).tokens.map ρ := by
  refine exists_relocation (scan_of_laidOut h).1 ?_
  refine List.Pairwise.imp (fun hlt => ?_) (pairwise_offset_tokens text)
  rintro rfl
  exact Nat.lt_irrefl _ hlt

theorem exists_accepted_iff : (∃ program, Accepted text program) ↔
    (scan text).mistakes = [] ∧ (parse (scan text).tokens).mistakes = [] ∧
      scopeMistakes (parse (scan text).tokens).statements = [] := by
  constructor
  · rintro ⟨program, h⟩
    obtain ⟨hlexical, hparsed, hscopes, -⟩ := accepted_iff.mp h
    exact ⟨hlexical, hparsed, hscopes⟩
  · exact fun h => ⟨_, accepted_of_nothing_wrong h⟩

theorem scopeMistakes_relocated (program : List (Stmt Blank)) :
    scopeMistakes (Stmt.relocatedBody ρ program) =
      relocatedMistakes ρ (scopeMistakes program) :=
  Stmt.scopeMistakesBody_relocated program .topLevel

/-- Texts with the same tokens in other places are accepted or rejected alike. -/
theorem exists_accepted_iff_of_relocated (hlexical : (scan text).mistakes = [])
    (hlexical' : (scan laid).mistakes = []) (htokens : (scan laid).tokens = (scan text).tokens.map ρ) :
    (∃ program, Accepted text program) ↔ ∃ program, Accepted laid program := by
  rw [exists_accepted_iff, exists_accepted_iff, htokens, parse_relocated, Parsed.relocated,
    scopeMistakes_relocated, relocatedMistakes, List.map_eq_nil_iff, List.map_eq_nil_iff,
    hlexical, hlexical']

/-- If they are accepted, their programs are twins. -/
theorem twins_of_relocated (htokens : (scan laid).tokens = (scan text).tokens.map ρ)
    {program program' : List (Stmt Place)} (h : Accepted text program)
    (h' : Accepted laid program') :
    Stmt.BodyTwins (ρ.guise (scan text).tokens) [] program program' := by
  obtain ⟨-, hparsed, -, rfl⟩ := h.nothing_wrong
  obtain ⟨-, -, -, rfl⟩ := h'.nothing_wrong
  rw [htokens, parse_relocated]
  exact Stmt.twins_linkBody_relocated _ []
    (eachToken_of_program (Parse.parse_sound hparsed) fun t ht => ⟨ht, rfl⟩)

/-! ### Runs -/

namespace Session

/-- **Layout is insignificant.** A text that scans without a mistake is laid out anew, with any
separators between its lexemes. The new text scans without a mistake to tokens of the same kinds,
lexemes and values, in other places. It is parsed to the same trees, and with the same mistakes, of
tokens in those places; it is accepted or rejected alike; and when it is accepted, a run of it gives
the same output and the same globals, and it fails with the same message, which is blamed on the
token in its other place. -/
theorem layout_insignificant (hlexical : (scan text).mistakes = [])
    (hlaid : LaidOut ((scan text).tokens.map Token.lexeme) laid) :
    (scan laid).mistakes = [] ∧
      List.Forall₂ Token.Elsewhere (scan text).tokens (scan laid).tokens ∧
      ∃ ρ : Relocation, (scan laid).tokens = (scan text).tokens.map ρ ∧
        parse (scan laid).tokens = (parse (scan text).tokens).relocated ρ ∧
        ((∃ program, Accepted text program) ↔ ∃ program, Accepted laid program) ∧
        ∀ {answers : Answers}, answers.Honest → answers.Settled →
          ∀ (natives : List Native) (clock : Float) (limits : Run.Limits) {report : Report},
          report.hasComplaint = false → (∃ program, Accepted text program) →
          (account (run limits text ⟨report, .initial natives clock, answers⟩)).Twins
            (ρ.guise (scan text).tokens)
            (account (run limits laid ⟨report, .initial natives clock, answers⟩)) := by
  obtain ⟨hsame, hlexical'⟩ := scan_of_laidOut hlaid
  obtain ⟨ρ, htokens⟩ := exists_relocation_of_laidOut hlaid
  have haccepted := exists_accepted_iff_of_relocated hlexical hlexical' htokens
  refine ⟨hlexical', hsame, ρ, htokens, ?_, haccepted, ?_⟩
  · rw [htokens, parse_relocated]
  · intro answers honest settled natives clock limits report hreport htext
    obtain ⟨program', h'⟩ := haccepted.mp htext
    obtain ⟨program, h⟩ := htext
    have htwins := twins_of_relocated htokens h h'
    obtain ⟨r, hr, hrun⟩ :=
      exists_run_eq_conclude h (s := ⟨report, .initial natives clock, answers⟩) hreport limits
    obtain ⟨r', hr', hrun'⟩ :=
      exists_run_eq_conclude h' (s := ⟨report, .initial natives clock, answers⟩) hreport limits
    obtain ⟨p, hleft, hright, hhere⟩ :=
      Pairing.exists_initial (G := ρ.guise (scan text).tokens) natives clock
    have hlead := Run.inStep_interpret (Run.twins_hostBy honest settled limits) hhere htwins
    rw [Run.InStep, hleft, hright] at hlead
    rw [hrun, hrun']
    exact twins_account hlead (Report.failure_eq_none hr) (Report.failure_eq_none hr')

/-- A text with nothing between its lexemes where nothing need be, and what looks like a comment in a
string. It fails in the end. -/
def crowdedText : String := "var s=\"1//2\";print 3/2>=1.5;class A\x7b\x7dA().s;"

/-- A blank, and a comment with a quote in it. -/
def quotingSeparator : List Char := [' ', '/', '/', '"', '\n']

theorem separator_quotingSeparator : Separator quotingSeparator := by
  have hcomment : Spacing ('/' :: '/' :: ['"'] ++ '\n' :: []) :=
    .comment (List.forall_mem_singleton.mpr rfl) .nil
  exact .mk rfl hcomment

/-- The text with a comment between each two of its lexemes. -/
def commentedText : String :=
  String.ofList (quotingSeparator.intercalate
    (((scan crowdedText).tokens.map Token.lexeme).map String.toList))

/-- Comments between all lexemes change nothing about the failure but the line that it is on. -/
theorem layout_insignificant_commentedText :
    (scan crowdedText).mistakes = [] ∧
      LaidOut ((scan crowdedText).tokens.map Token.lexeme) commentedText ∧
      Answers.usual.Honest ∧ Answers.usual.Settled ∧ (Report.quiet "").hasComplaint = false ∧
      (∃ program, Accepted crowdedText program) ∧
      (∃ ρ : Relocation, (scan commentedText).tokens = (scan crowdedText).tokens.map ρ ∧
        (account (run ⟨9, 9⟩ crowdedText (fresh (.quiet "") Native.all 0))).Twins
          (ρ.guise (scan crowdedText).tokens)
          (account (run ⟨9, 9⟩ commentedText (fresh (.quiet "") Native.all 0)))) ∧
      (account (run ⟨9, 9⟩ crowdedText (fresh (.quiet "") Native.all 0))).failure.map
        (·.message) = some "Undefined property 's'." := by
  have hlaid := laidOut_intercalate separator_quotingSeparator
    ((scan crowdedText).tokens.map Token.lexeme)
  obtain ⟨hnothing, hmessage⟩ : ((scan crowdedText).mistakes = [] ∧
      (parse (scan crowdedText).tokens).mistakes = [] ∧
      scopeMistakes (parse (scan crowdedText).tokens).statements = []) ∧
      (account (run ⟨9, 9⟩ crowdedText (fresh (.quiet "") Native.all 0))).failure.map
        (·.message) = some "Undefined property 's'." := by
    decide +kernel
  have haccepted : ∃ program, Accepted crowdedText program := exists_accepted_iff.mpr hnothing
  obtain ⟨-, -, ρ, htokens, -, -, hrun⟩ := layout_insignificant hnothing.1 hlaid
  exact ⟨hnothing.1, hlaid, Answers.honest_usual, Answers.settled_usual, rfl, haccepted,
    ⟨ρ, htokens, hrun Answers.honest_usual Answers.settled_usual Native.all 0 ⟨9, 9⟩ rfl haccepted⟩,
    hmessage⟩

end Session

end LoxInterpreter
