import LoxInterpreter.Check
import LoxInterpreter.Proofs.Grammar.Soundness
import LoxInterpreter.Proofs.Scan.Token

/-!
# Accepted texts

A text is accepted if it gets through checking. This is so exactly if no phase finds anything wrong
with it, and what is run is the parsed program with its links filled in (`accepted_iff`). The tokens
of an accepted text derive a program to which scope analysis has no objection
(`Accepted.exists_statements`).

A phase cannot hide a mistake. Recording one either gives up or leaves the report with one more
issue than before (`Reporting.lt_size_of_error`), and no step takes an issue away.
-/

namespace LoxInterpreter

open Grammar

namespace Reporting

variable {α β : Type} {r r' : Report}

/-- A step that went on with a value did so through an intermediate report. -/
theorem bind_eq_ok {act : Reporting α} {f : α → Reporting β} {b : β}
    (h : (act >>= f) r = .ok b r') : ∃ a r₁, act r = .ok a r₁ ∧ f a r₁ = .ok b r' := by
  replace h : EStateM.bind act f r = .ok b r' := h
  rw [EStateM.bind] at h
  split at h
  · next a r₁ ha => exact ⟨a, r₁, ha, h⟩
  · cases h

theorem bind_of_eq_ok {act : Reporting α} {a : α} (h : act r = .ok a r') (f : α → Reporting β) :
    (act >>= f) r = f a r' := by
  show EStateM.bind act f r = _
  rw [EStateM.bind, h]

theorem bind_of_eq_error {act : Reporting α} {e : GivingUp}
    (h : act r = .error e r') (f : α → Reporting β) : (act >>= f) r = .error e r' := by
  show EStateM.bind act f r = _
  rw [EStateM.bind, h]

/-- Recording an issue leaves it in the report, whether the report gives up on it or not. -/
theorem issue_eq (i : Issue) (r : Report) :
    issue i r = if (r.issues.push i).size = r.maxIssues
      then .error .tooManyIssues { r with issues := r.issues.push i }
      else .ok () { r with issues := r.issues.push i } := by
  rw [issue]
  refine (bind_of_eq_ok rfl _).trans ((bind_of_eq_ok rfl _).trans ?_)
  dsimp only
  split <;> rfl

/-- A mistake at a token is recorded as the issue at its place. -/
theorem error_eq (token : Token) (message : String) (r : Report) :
    error token message r = issue (r.issueAt token message) r :=
  bind_of_eq_ok rfl _

theorem issues_issue {i : Issue} {u : Unit} (h : issue i r = .ok u r') :
    r'.issues = r.issues.push i := by
  rw [issue_eq] at h
  split at h <;> cases h
  rfl

theorem lt_size_of_error {token : Token} {message : String} {u : Unit}
    (h : error token message r = .ok u r') : r.issues.size < r'.issues.size := by
  rw [error_eq] at h
  rw [issues_issue h, Array.size_push]
  exact Nat.lt_succ_self _

theorem lt_size_of_errorAtPlace {line : Int} {offset : Nat} {message : String} {u : Unit}
    (h : errorAtPlace line offset message r = .ok u r') : r.issues.size < r'.issues.size := by
  rw [errorAtPlace] at h
  obtain ⟨_, r₁, hget, h⟩ := bind_eq_ok h
  cases hget
  rw [issues_issue h, Array.size_push]
  exact Nat.lt_succ_self _

/-- Recording several mistakes leaves at least as many issues. -/
theorem length_le_size_of_forM {f : α → Reporting PUnit} {as : List α} {u : PUnit}
    (hf : ∀ a r r', f a r = .ok ⟨⟩ r' → r.issues.size < r'.issues.size)
    (h : as.forM f r = .ok u r') : r.issues.size + as.length ≤ r'.issues.size := by
  induction as generalizing r with
  | nil =>
    cases h
    exact Nat.le_refl _
  | cons a as ih =>
    obtain ⟨_, r₁, ha, h⟩ := bind_eq_ok h
    have hlt := hf a r r₁ ha
    have hle := ih h
    simp only [List.length_cons]
    omega

/-- What is left of a report that is not sick. -/
theorem size_eq_zero_of_not_sick (h : ¬r.sick = true) : r.issues.size = 0 := by
  simpa [Report.sick] using h

/-- Scanning a text records its lexical mistakes. -/
theorem scanText_eq_ok {text : String} {scanned : Scan} (h : scanText text r = .ok scanned r') :
    scanned = scan text ∧ (scan text).mistakes.length ≤ r'.issues.size := by
  rw [scanText] at h
  obtain ⟨_, r₁, -, hrecord⟩ := bind_eq_ok h
  clear h
  obtain ⟨_, r₂, hmistakes, hresult⟩ := bind_eq_ok hrecord
  clear hrecord
  cases hresult
  have hle := length_le_size_of_forM (fun _ _ _ => lt_size_of_errorAtPlace) hmistakes
  exact ⟨rfl, by omega⟩

/-- Parsing a text and finding nothing wrong. -/
theorem parseText_eq_ok {text : String} {statements : List (Stmt Blank)}
    (h : parseText text r = .ok statements r') (hs : ¬r'.sick = true) :
    statements = (parse (scan text).tokens).statements ∧ (scan text).mistakes = [] ∧
      (parse (scan text).tokens).mistakes = [] := by
  rw [parseText] at h
  obtain ⟨scanned, r₁, hscan, h⟩ := bind_eq_ok h
  obtain ⟨rfl, hlexical⟩ := scanText_eq_ok hscan
  obtain ⟨_, r₂, hrecord, h⟩ := bind_eq_ok h
  cases h
  have hle := length_le_size_of_forM (fun _ _ _ => lt_size_of_error) hrecord
  have hzero := size_eq_zero_of_not_sick hs
  exact ⟨rfl, List.eq_nil_of_length_eq_zero (by omega), List.eq_nil_of_length_eq_zero (by omega)⟩

/-- Filling in links and finding nothing wrong. -/
theorem link_eq_ok {statements : List (Stmt Blank)} {linked : List (Stmt Place)}
    (h : link statements r = .ok linked r') (hs : ¬r'.sick = true) :
    linked = linkProgram statements ∧ scopeMistakes statements = [] := by
  rw [link] at h
  obtain ⟨_, r₁, hrecord, h⟩ := bind_eq_ok h
  cases h
  have hle := length_le_size_of_forM (fun _ _ _ => lt_size_of_error) hrecord
  have hzero := size_eq_zero_of_not_sick hs
  exact ⟨rfl, List.eq_nil_of_length_eq_zero (by omega)⟩

end Reporting

/-- Some report lets the text pass, and the program is what is run then. -/
def Accepted (text : String) (program : List (Stmt Place)) : Prop :=
  ∃ report report', Reporting.check text report = .ok (some program) report'

/-- Each phase of a text that gets through checking has found nothing wrong. -/
theorem Accepted.nothing_wrong {text : String} {program : List (Stmt Place)}
    (h : Accepted text program) :
    (scan text).mistakes = [] ∧ (parse (scan text).tokens).mistakes = [] ∧
      scopeMistakes (parse (scan text).tokens).statements = [] ∧
      program = linkProgram (parse (scan text).tokens).statements := by
  obtain ⟨r, r', h⟩ := h
  rw [Reporting.check] at h
  obtain ⟨statements, r₁, hparse, h⟩ := Reporting.bind_eq_ok h
  obtain ⟨_, r₂, hget, h⟩ := Reporting.bind_eq_ok h
  cases hget
  -- a sick report after parsing would have been the end
  split at h
  · cases h
  next hs =>
  obtain ⟨_, r₃, -, h⟩ := Reporting.bind_eq_ok h
  obtain ⟨linked, r₄, hlink, h⟩ := Reporting.bind_eq_ok h
  obtain ⟨_, r₅, hget, h⟩ := Reporting.bind_eq_ok h
  cases hget
  -- and so would have been one after linking
  split at h
  · cases h
  next hs' =>
  obtain ⟨_, r₆, -, h⟩ := Reporting.bind_eq_ok h
  cases h
  obtain ⟨rfl, hlexical, hparsed⟩ := Reporting.parseText_eq_ok hparse hs
  obtain ⟨hlinked, hscopes⟩ := Reporting.link_eq_ok hlink hs'
  exact ⟨hlexical, hparsed, hscopes, hlinked⟩

/-- A report on a text that has nothing on it and is not told to talk. -/
def Report.quiet (source : String) : Report :=
  { Report.fresh false 0 default with source }

theorem Reporting.exists_info (words : List String) (r : Report) : ∃ r',
    Reporting.info words r = .ok () r' ∧ r'.issues = r.issues ∧ r'.failure = r.failure := by
  refine ⟨if r.verbose then r.writeLine (" ".intercalate words) else r, rfl, ?_⟩
  cases r.verbose <;> exact ⟨rfl, rfl⟩

/-- A text with nothing wrong passes with any report that has no issues. Issues and failure are
left alone. -/
theorem Reporting.exists_check_eq_ok {text : String} {statements : List (Stmt Blank)}
    (hlexical : (scan text).mistakes = []) (hparsed : (parse (scan text).tokens).mistakes = [])
    (hstatements : (parse (scan text).tokens).statements = statements)
    (hscopes : scopeMistakes statements = []) {r : Report} (hr : ¬r.sick = true) : ∃ r',
      Reporting.check text r = .ok (some (linkProgram statements)) r' ∧ r'.issues = r.issues ∧
        r'.failure = r.failure := by
  have hscan : Reporting.scanText text r = .ok (scan text) { r with source := text } := by
    refine (Reporting.bind_of_eq_ok rfl _).trans ?_
    dsimp only
    rw [hlexical]
    rfl
  have hparse : Reporting.parseText text r = .ok statements { r with source := text } := by
    refine (Reporting.bind_of_eq_ok hscan _).trans ?_
    rw [hparsed, hstatements]
    rfl
  have hlink (r : Report) : Reporting.link statements r = .ok (linkProgram statements) r := by
    rw [Reporting.link, hscopes]
    rfl
  have hhealthy (r' : Report) (h : r'.issues = r.issues) : ¬r'.sick = true := by
    rwa [Report.sick, h]
  obtain ⟨r₁, hinfo, hissues, hfailure⟩ := exists_info
    ["Parsed " ++ toString statements.length ++ " top-level statement(s)."]
    { r with source := text }
  obtain ⟨r₂, hinfo', hissues', hfailure'⟩ := exists_info
    ["Resolved " ++ toString (localTable (linkProgram statements)).length ++
      " local reference(s)."] r₁
  refine ⟨r₂, ?_, hissues'.trans hissues, hfailure'.trans hfailure⟩
  refine (Reporting.bind_of_eq_ok hparse _).trans ((Reporting.bind_of_eq_ok rfl _).trans ?_)
  rw [if_neg (hhealthy { r with source := text } rfl)]
  refine (Reporting.bind_of_eq_ok hinfo _).trans ?_
  refine (Reporting.bind_of_eq_ok (hlink r₁) _).trans ((Reporting.bind_of_eq_ok rfl _).trans ?_)
  rw [if_neg (hhealthy r₁ hissues)]
  exact (Reporting.bind_of_eq_ok hinfo' _).trans rfl

/-- **Nothing is wrong with an accepted text**, and a text with nothing wrong is accepted. -/
theorem accepted_iff {text : String} {program : List (Stmt Place)} :
    Accepted text program ↔ (scan text).mistakes = [] ∧ (parse (scan text).tokens).mistakes = [] ∧
      scopeMistakes (parse (scan text).tokens).statements = [] ∧
      program = linkProgram (parse (scan text).tokens).statements := by
  refine ⟨Accepted.nothing_wrong, ?_⟩
  rintro ⟨hlexical, hparsed, hscopes, rfl⟩
  obtain ⟨report, hcheck, -⟩ := Reporting.exists_check_eq_ok hlexical hparsed rfl hscopes
    (r := .quiet "") nofun
  exact ⟨_, report, hcheck⟩

theorem accepted_of_nothing_wrong {text : String} (h : (scan text).mistakes = [] ∧
    (parse (scan text).tokens).mistakes = [] ∧
    scopeMistakes (parse (scan text).tokens).statements = []) :
    Accepted text (linkProgram (parse (scan text).tokens).statements) :=
  accepted_iff.mpr ⟨h.1, h.2.1, h.2.2, rfl⟩

/-- **The program of an accepted text.** Its tokens derive statements to which scope analysis has no
objection. -/
theorem Accepted.exists_statements {text : String} {program : List (Stmt Place)}
    (h : Accepted text program) :
    ∃ statements, Program (scan text).tokens statements ∧ scopeMistakes statements = [] ∧
      program = linkProgram statements := by
  obtain ⟨-, hparsed, hscopes, hprogram⟩ := h.nothing_wrong
  exact ⟨_, Parse.parse_sound hparsed, hscopes, hprogram⟩

end LoxInterpreter
