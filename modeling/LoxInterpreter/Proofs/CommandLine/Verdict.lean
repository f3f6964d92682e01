import LoxInterpreter.CommandLine.Perform
import LoxInterpreter.Proofs.Accepted

/-!
# The verdict on a checked script

With the option to check, a script is not run. What the program answers depends on what the phases
find wrong with the text (`findings`): if nothing, the text looks plausible, and the status is that
of success; else there are complaints, and the status is that of bad input.

* `parseText_eq` and `check_eq` say what a report with room for some issues comes to hold.
* `runText_check` puts this together. Which phases look at the text depends on the options: showing
  trees leaves out the analysis of scopes, so that a text with mistakes of scope can look plausible
  (`runText_trees_returning`).
-/

namespace LoxInterpreter

/-! ### What there is to find -/

namespace Report

/-- The report with more issues. -/
def adding (r : Report) (found : List Issue) : Report :=
  { r with issues := (r.issues.toList ++ found).toArray }

theorem adding_nil (r : Report) : r.adding [] = r := by
  simp [adding]

theorem adding_adding (r : Report) (found more : List Issue) :
    (r.adding found).adding more = r.adding (found ++ more) := by
  simp [adding]

theorem size_adding (r : Report) (found : List Issue) :
    (r.adding found).issues.size = r.issues.size + found.length := by
  simp [adding]

theorem sick_adding (r : Report) {found : List Issue} (h : found ≠ []) :
    (r.adding found).sick = true := by
  simp [sick, adding, h]

/-- The report with something more on the console. -/
def telling (r : Report) (told : String) : Report := { r with console := r.console ++ told }

theorem telling_telling (r : Report) (told more : String) :
    (r.telling told).telling more = r.telling (told ++ more) := by
  simp [telling, String.append_assoc]

theorem telling_empty (r : Report) : r.telling "" = r := by
  simp [telling]

end Report

/-- What scanning finds wrong with a text. -/
def lexicalIssues (text : String) : List Issue :=
  (scan text).mistakes.map fun m =>
    (Report.quiet text).issueAtPlace m.line m.offset m.cause.message

/-- What parsing finds wrong with a text. -/
def syntaxIssues (text : String) : List Issue :=
  (parse (scan text).tokens).mistakes.map fun m =>
    (Report.quiet text).issueAt (m.token.getD (scan text).endToken) m.cause.message

/-- What the analysis of scopes finds wrong with a text. -/
def scopeIssues (text : String) : List Issue :=
  (scopeMistakes (parse (scan text).tokens).statements).map fun m =>
    (Report.quiet text).issueAt m.token m.cause.message

/-- What scanning and parsing find. -/
def parsingIssues (text : String) : List Issue := lexicalIssues text ++ syntaxIssues text

/-- What all phases find. Scopes are analysed only if nothing is wrong before. -/
def checkingIssues (text : String) : List Issue :=
  if parsingIssues text = [] then scopeIssues text else parsingIssues text

namespace Reporting

variable {α : Type} {n : Nat} {r : Report}

theorem issue_eq_adding (i : Issue) (r : Report) :
    issue i r = if r.issues.size + 1 = r.maxIssues then .error .tooManyIssues (r.adding [i])
      else .ok () (r.adding [i]) := by
  have hpush : { r with issues := r.issues.push i } = r.adding [i] := by
    rw [Report.adding, ← Array.toList_push]
  rw [issue_eq, Array.size_push, hpush]

/-- **Recording** mistakes in their order, as issues made with the source of the report, while there
is room for `n` of them. -/
theorem forM_eq_of_room {f : α → Reporting PUnit} {g : String → α → Issue}
    (hf : ∀ a r, f a r = issue (g r.source a) r) (as : List α)
    (hn : r.issues.size + n = r.maxIssues) (hpos : 0 < n) :
    as.forM f r =
      if as.length < n then .ok ⟨⟩ (r.adding (as.map (g r.source)))
      else .error .tooManyIssues (r.adding ((as.map (g r.source)).take n)) := by
  induction as generalizing r n with
  | nil =>
    rw [List.length_nil, if_pos hpos, List.map_nil, Report.adding_nil]
    rfl
  | cons a as ih =>
    have hstep := (hf a r).trans (issue_eq_adding _ r)
    obtain ⟨n, rfl⟩ : ∃ m, n = m + 1 := ⟨n - 1, by omega⟩
    rw [List.length_cons, List.map_cons, List.take_succ_cons]
    by_cases hfull : n = 0
    · subst hfull
      rw [if_pos (by omega)] at hstep
      rw [if_neg (by omega), List.take_zero]
      exact bind_of_eq_error hstep _
    · rw [if_neg (by omega)] at hstep
      have hroom : (r.adding [g r.source a]).issues.size + n =
          (r.adding [g r.source a]).maxIssues := by
        rw [Report.size_adding, List.length_singleton, ← Nat.add_right_comm]
        exact hn
      refine (bind_of_eq_ok hstep _).trans ((ih hroom (Nat.pos_of_ne_zero hfull)).trans ?_)
      rw [Report.adding_adding, Report.adding_adding]
      simp only [Nat.add_lt_add_iff_right]
      rfl

/-- **Parsing a text** records what scanning finds and then what parsing finds. -/
theorem parseText_eq (text : String) (hn : r.issues.size + n = r.maxIssues) (hpos : 0 < n) :
    parseText text r =
      if (parsingIssues text).length < n then
        .ok (parse (scan text).tokens).statements
          ({ r with source := text }.adding (parsingIssues text))
      else .error .tooManyIssues
        ({ r with source := text }.adding ((parsingIssues text).take n)) := by
  have hlexical := forM_eq_of_room (r := { r with source := text })
    (f := fun m : LexicalMistake => errorAtPlace m.line m.offset m.cause.message)
    (g := fun source m => (Report.quiet source).issueAtPlace m.line m.offset m.cause.message)
    (fun _ _ => bind_of_eq_ok rfl _) (scan text).mistakes hn hpos
  have hlength : (parsingIssues text).length =
      (scan text).mistakes.length + (parse (scan text).tokens).mistakes.length := by
    simp [parsingIssues, lexicalIssues, syntaxIssues]
  by_cases hroom : (scan text).mistakes.length < n
  · rw [if_pos hroom] at hlexical
    have hsyntax := forM_eq_of_room (n := n - (scan text).mistakes.length)
      (r := { r with source := text }.adding (lexicalIssues text))
      (f := fun m : SyntaxMistake => error (m.token.getD (scan text).endToken) m.cause.message)
      (g := fun source m =>
        (Report.quiet source).issueAt (m.token.getD (scan text).endToken) m.cause.message)
      (fun _ _ => bind_of_eq_ok rfl _) (parse (scan text).tokens).mistakes
      (by
        rw [Report.size_adding, lexicalIssues, List.length_map]
        show r.issues.size + _ + _ = r.maxIssues
        omega)
      (by omega)
    have hscan : scanText text r =
        .ok (scan text) ({ r with source := text }.adding (lexicalIssues text)) :=
      (bind_of_eq_ok rfl _).trans (bind_of_eq_ok hlexical _)
    rw [Report.adding_adding, Report.adding_adding] at hsyntax
    refine (bind_of_eq_ok hscan _).trans ?_
    by_cases hroom' : (parsingIssues text).length < n
    · rw [if_pos (by omega)] at hsyntax
      rw [if_pos hroom']
      exact bind_of_eq_ok hsyntax _
    · rw [if_neg (by omega)] at hsyntax
      rw [if_neg hroom', parsingIssues, List.take_append,
        List.take_of_length_le (by rw [lexicalIssues, List.length_map]; omega), lexicalIssues,
        List.length_map]
      exact bind_of_eq_error hsyntax _
  · rw [if_neg hroom] at hlexical
    have hscan : scanText text r = .error .tooManyIssues
        ({ r with source := text }.adding ((lexicalIssues text).take n)) :=
      (bind_of_eq_ok rfl _).trans (bind_of_eq_error hlexical _)
    rw [if_neg (by omega), parsingIssues,
      List.take_append_of_le_length (by rw [lexicalIssues, List.length_map]; omega)]
    exact bind_of_eq_error hscan _

/-- **Filling in the links** records what the analysis of scopes finds. -/
theorem link_eq (text : String) (hsource : r.source = text)
    (hn : r.issues.size + n = r.maxIssues) (hpos : 0 < n) :
    link (parse (scan text).tokens).statements r =
      if (scopeIssues text).length < n then
        .ok (linkProgram (parse (scan text).tokens).statements) (r.adding (scopeIssues text))
      else .error .tooManyIssues (r.adding ((scopeIssues text).take n)) := by
  have hscopes := forM_eq_of_room (f := fun m : ScopeMistake => error m.token m.cause.message)
    (g := fun source m => (Report.quiet source).issueAt m.token m.cause.message)
    (fun _ _ => bind_of_eq_ok rfl _) (scopeMistakes (parse (scan text).tokens).statements) hn hpos
  rw [hsource] at hscopes
  rw [scopeIssues, List.length_map]
  by_cases hroom : (scopeMistakes (parse (scan text).tokens).statements).length < n
  · rw [if_pos hroom] at hscopes ⊢
    exact bind_of_eq_ok hscopes _
  · rw [if_neg hroom] at hscopes ⊢
    exact bind_of_eq_error hscopes _

/-- The first thing that checking tells: how many statements there are. -/
def parsedLine (text : String) : String :=
  "Parsed " ++ toString (parse (scan text).tokens).statements.length ++ " top-level statement(s)."

/-- The second thing that checking tells: how many names are local. -/
def linkedLine (text : String) : String :=
  "Resolved " ++
    toString (localTable (linkProgram (parse (scan text).tokens).statements)).length ++
    " local reference(s)."

/-- What checking tells about its progress: a line for each phase that leaves nothing wrong. -/
def progress (text : String) : String :=
  if parsingIssues text ≠ [] then ""
  else if scopeIssues text ≠ [] then parsedLine text ++ "\n"
  else parsedLine text ++ "\n" ++ linkedLine text ++ "\n"

theorem info_eq (line : String) (r : Report) :
    info [line] r = .ok () (r.telling (if r.verbose then line ++ "\n" else "")) := by
  have hinfo : info [line] r = .ok () (if r.verbose then r.writeLine line else r) := rfl
  rw [hinfo]
  split
  · rw [Report.writeLine, Report.telling, String.append_assoc]
  · rw [Report.telling_empty]

/-- **Checking a text that parses**, behind parsing, with a report that has no issues yet and room
for `n`. -/
theorem link_and_info_eq (text : String) (hsource : r.source = text) (hissues : r.issues = #[])
    (hn : r.maxIssues = n) (hpos : 0 < n) :
    (do
      let linked ← link (parse (scan text).tokens).statements
      if (← get).sick then return none
      info ["Resolved " ++ toString (localTable linked).length ++ " local reference(s)."]
      return some linked : Reporting _) r =
      if scopeIssues text = [] then
        .ok (some (linkProgram (parse (scan text).tokens).statements))
          (r.telling (if r.verbose then linkedLine text ++ "\n" else ""))
      else if (scopeIssues text).length < n then .ok none (r.adding (scopeIssues text))
      else .error .tooManyIssues (r.adding ((scopeIssues text).take n)) := by
  have hroom : r.issues.size + n = r.maxIssues := by rw [hissues, hn]; exact Nat.zero_add n
  have hlink := link_eq text hsource hroom hpos
  by_cases hscopes : scopeIssues text = []
  · have hhealthy : ¬r.sick = true := by
      rw [Report.sick, hissues]
      decide
    rw [hscopes, List.length_nil, if_pos hpos, Report.adding_nil] at hlink
    rw [if_pos hscopes]
    refine (bind_of_eq_ok hlink _).trans ((bind_of_eq_ok rfl _).trans ?_)
    rw [if_neg hhealthy]
    exact bind_of_eq_ok (info_eq (linkedLine text) r) _
  · rw [if_neg hscopes]
    by_cases hlt : (scopeIssues text).length < n
    · rw [if_pos hlt] at hlink ⊢
      refine (bind_of_eq_ok hlink _).trans ((bind_of_eq_ok rfl _).trans ?_)
      rw [if_pos (r.sick_adding hscopes)]
      rfl
    · rw [if_neg hlt] at hlink ⊢
      exact bind_of_eq_error hlink _

/-- **Checking a text** with a report that has no issues yet, and room for `n`. -/
theorem check_eq (text : String) (hissues : r.issues = #[]) (hn : r.maxIssues = n) (hpos : 0 < n) :
    check text r =
      let r' := ({ r with source := text } : Report).telling
        (if r.verbose then progress text else "")
      if (checkingIssues text).length < n then
        .ok (if checkingIssues text = [] then
            some (linkProgram (parse (scan text).tokens).statements) else none)
          (r'.adding (checkingIssues text))
      else .error .tooManyIssues (r'.adding ((checkingIssues text).take n)) := by
  have hroom : r.issues.size + n = r.maxIssues := by rw [hissues, hn]; exact Nat.zero_add n
  have hparse := parseText_eq text hroom hpos
  dsimp only
  by_cases hparsing : parsingIssues text = []
  · have hchecking : checkingIssues text = scopeIssues text := if_pos hparsing
    have hhealthy : ¬({ r with source := text } : Report).sick = true := by
      rw [Report.sick, hissues]
      decide
    have hrest := link_and_info_eq (r := ({ r with source := text } : Report).telling
      (if r.verbose then parsedLine text ++ "\n" else "")) text rfl hissues hn hpos
    have hcheck : check text r = _ :=
      (bind_of_eq_ok (by rw [hparse, hparsing, List.length_nil, if_pos hpos, Report.adding_nil])
        _).trans ((bind_of_eq_ok rfl _).trans ((congrFun (if_neg hhealthy) _).trans
          ((bind_of_eq_ok (info_eq (parsedLine text) _) _).trans hrest)))
    rw [hcheck, hchecking, progress, if_neg (not_not_intro hparsing)]
    by_cases hscopes : scopeIssues text = []
    · rw [if_pos hscopes, if_neg (not_not_intro hscopes), hscopes, List.length_nil, if_pos hpos,
        if_pos rfl, Report.adding_nil, Report.telling_telling]
      show EStateM.Result.ok _ (Report.telling _ (_ ++ if r.verbose = true then _ else _)) = _
      cases r.verbose with
      | false => rfl
      | true => simp only [if_true, String.append_assoc]
    · rw [if_neg hscopes, if_neg hscopes, if_pos hscopes]
  · have hchecking : checkingIssues text = parsingIssues text := if_neg hparsing
    have hprogress : progress text = "" := if_pos hparsing
    rw [hchecking, hprogress, ite_self, Report.telling_empty, if_neg hparsing]
    by_cases hlt : (parsingIssues text).length < n
    · rw [if_pos hlt] at hparse ⊢
      refine (bind_of_eq_ok hparse _).trans ((bind_of_eq_ok rfl _).trans ?_)
      rw [if_pos (Report.sick_adding _ hparsing)]
      rfl
    · rw [if_neg hlt] at hparse ⊢
      exact bind_of_eq_error hparse _

end Reporting

namespace CommandLine

/-- What is found wrong with a text that is not run: scopes are not analysed to show trees. -/
def findings (options : Options) (text : String) : List Issue :=
  if options.tree then parsingIssues text else checkingIssues text

/-- What is told about progress, if that is wanted. Showing trees goes on in silence. -/
def chatter (options : Options) (text : String) : String :=
  if options.tree = false ∧ options.verbose ≠ 0 then Reporting.progress text else ""

/-- What is left on the report when a text that is not run has been looked at. -/
def reportOn (stage : Stage) (options : Options) (text : String) : Report :=
  (({ Report.fresh (options.verbose != 0) Report.defaultMaxIssues stage.dice with
    source := text } : Report).telling (chatter options text)).adding
      ((findings options text).take Report.defaultMaxIssues)

/-- The trees of a text, if they are asked for and the report did not give up. -/
def treeLines (options : Options) (text : String) : String :=
  if options.tree = true ∧ (findings options text).length < Report.defaultMaxIssues then
    String.join ((parse (scan text).tokens).statements.map fun s => s.render ++ "\n")
  else ""

/-- **A text that is not run** is concluded with what is found. -/
theorem runText_check_eq (stage : Stage) (options : Options) (text : String) :
    runText stage { options with check := true } text =
      finish { options with check := true } (treeLines options text) (reportOn stage options text)
        (decide (Report.defaultMaxIssues ≤ (findings options text).length)) := by
  have hfresh : (Report.fresh (options.verbose != 0) Report.defaultMaxIssues stage.dice).issues =
    #[] := rfl
  rw [runText]
  dsimp only
  cases htree : options.tree with
  | true =>
    have hfindings : findings options text = parsingIssues text := by rw [findings, if_pos htree]
    have hchatter : chatter options text = "" := by simp [chatter, htree]
    rw [if_pos rfl, Reporting.parseText_eq text (n := Report.defaultMaxIssues) rfl (by decide),
      reportOn, treeLines, hfindings, hchatter, Report.telling_empty]
    by_cases hlt : (parsingIssues text).length < Report.defaultMaxIssues
    · rw [if_pos hlt, if_pos ⟨htree, hlt⟩, List.take_of_length_le hlt.le,
        decide_eq_false (Nat.not_le_of_lt hlt)]
    · rw [if_neg hlt, if_neg fun h => hlt h.2, decide_eq_true (Nat.le_of_not_lt hlt)]
  | false =>
    have hfindings : findings options text = checkingIssues text := by
      rw [findings, htree]
      rfl
    have hchatter : chatter options text =
        if (options.verbose != 0) = true then Reporting.progress text else "" := by
      simp [chatter, htree]
    have htrees : treeLines options text = "" := by simp [treeLines, htree]
    rw [if_neg (by decide), if_pos rfl,
      Reporting.check_eq text (n := Report.defaultMaxIssues) rfl rfl (by decide), reportOn, htrees,
      hfindings, hchatter]
    dsimp only
    by_cases hlt : (checkingIssues text).length < Report.defaultMaxIssues
    · rw [if_pos hlt, List.take_of_length_le hlt.le, decide_eq_false (Nat.not_le_of_lt hlt)]
      rfl
    · rw [if_neg hlt, decide_eq_true (Nat.le_of_not_lt hlt)]
      rfl

/-- What is said when a report gave up. -/
def lastWords : String :=
  String.join (List.replicate 35 " *") ++ "\n" ++
    "Giving up after a few issues. One crisis at a time, eh?" ++ "\n"

theorem findings_eq_nil_iff (options : Options) (text : String) :
    findings options text = [] ↔ (scan text).mistakes = [] ∧
      (parse (scan text).tokens).mistakes = [] ∧
      (options.tree = false → scopeMistakes (parse (scan text).tokens).statements = []) := by
  have hparsing : parsingIssues text = [] ↔
      (scan text).mistakes = [] ∧ (parse (scan text).tokens).mistakes = [] := by
    simp [parsingIssues, lexicalIssues, syntaxIssues]
  cases htree : options.tree with
  | true =>
    rw [findings, if_pos htree, hparsing]
    simp
  | false =>
    rw [findings, htree, if_neg (by decide), checkingIssues]
    by_cases h : parsingIssues text = []
    · rw [if_pos h]
      simp [hparsing.mp h, scopeIssues]
    · rw [if_neg h, ← and_assoc, ← hparsing]
      simp [h]

/-- **The verdict on a text.** A text that is not run leaves the program with the status of success
exactly if nothing is found wrong with it, and only then it is said to look plausible; else there
are complaints, and the status is that of bad input. If trees are to be shown, only scanning and
parsing look for mistakes, and else the analysis of scopes does so too. What is shown are the trees
and nothing that a program prints, and how a program would be run does not matter. -/
theorem runText_check (stage : Stage) (options : Options) (text : String) :
    let p := runText stage { options with check := true } text
    (findings options text = [] ↔ (scan text).mistakes = [] ∧
      (parse (scan text).tokens).mistakes = [] ∧
      (options.tree = false → scopeMistakes (parse (scan text).tokens).statements = [])) ∧
    (findings options text = [] → p.ending = .exit ExitStatus.success ∧
      p.console = chatter options text ++ "Looks plausible to me.\n") ∧
    (findings options text ≠ [] → p.ending = .exit ExitStatus.badInput ∧
      p.console = (reportOn stage options text).complain.console ++
        if Report.defaultMaxIssues ≤ (findings options text).length then lastWords else "") ∧
    p.output = treeLines options text ∧
    ∀ limits clock, runText ⟨limits, stage.dice, clock⟩ { options with check := true } text = p := by
  have hsame (limits : Run.Limits) (clock : Float) :
      runText ⟨limits, stage.dice, clock⟩ { options with check := true } text =
        runText stage { options with check := true } text := by
    rw [runText_check_eq, runText_check_eq]
    rfl
  dsimp only
  refine ⟨findings_eq_nil_iff options text, fun hnone => ?_, fun hsome => ?_, ?_, hsame⟩
  · have hreport : reportOn stage options text =
        ({ Report.fresh (options.verbose != 0) Report.defaultMaxIssues stage.dice with
          source := text } : Report).telling (chatter options text) := by
      rw [reportOn, hnone, List.take_nil, Report.adding_nil]
    have hconclude : conclude { options with check := true } (reportOn stage options text) false =
        ((reportOn stage options text).writeLine "Looks plausible to me.",
          ExitStatus.success) := by
      rw [hreport]
      rfl
    rw [runText_check_eq, hnone, List.length_nil, decide_eq_false (by decide), finish, hconclude,
      hreport]
    refine ⟨rfl, ?_⟩
    show "" ++ chatter options text ++ _ ++ _ = _
    rw [String.empty_append, String.append_assoc]
    rfl
  · have hsick : (reportOn stage options text).sick = true :=
      Report.sick_adding _ fun h => hsome (List.take_eq_nil_iff.mp h |>.resolve_left (by decide))
    rw [runText_check_eq, finish, conclude]
    by_cases hfull : Report.defaultMaxIssues ≤ (findings options text).length
    · rw [decide_eq_true hfull, if_pos rfl, if_pos hfull]
      refine ⟨rfl, ?_⟩
      simp only [Report.writeLine, lastWords, String.append_assoc]
    · rw [decide_eq_false hfull, if_neg (by decide), if_pos hsick, if_neg hfull]
      exact ⟨rfl, (String.append_empty).symm⟩
  · rw [runText_check_eq]
    rfl

/-- The trees of a text with a mistake of scope are shown, and then it is said to look plausible. -/
theorem runText_trees_returning :
    scopeMistakes (parse (scan "return nil;").tokens).statements ≠ [] ∧
    runText ⟨⟨3, 1⟩, default, 0⟩ ⟨none, true, true, 0⟩ "return nil;" =
      ⟨"(return nil)\n", "Looks plausible to me.\n", .exit ExitStatus.success⟩ := by
  decide +kernel

end CommandLine

end LoxInterpreter
