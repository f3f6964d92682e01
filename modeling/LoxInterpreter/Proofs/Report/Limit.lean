import LoxInterpreter.Proofs.Tape.Progress

/-!
# The limit of a report

How many issues a report may hold decides how many of them are recorded, and nothing else. Two runs
of a step are compared, from the same report but for the limit: a report without a limit records
everything that there is to find, and one with a limit records the first of these until it is full,
and gives up at that very issue.

* `Truncates` says so of a step. It composes along `>>=` (`Truncates.bind`), and a step may look at
  the report as long as it does not look at the limit (`Truncates.get_bind`).
* `check_truncated` says so of checking a text, of parsing it, and of parsing and linking it.
* `tape_truncated` says so of parsers that report each mistake when they meet it, and stop there and
  then if the report is full: on any tape, and on that of a text.
-/

namespace LoxInterpreter

namespace Report

/-- The report with another limit on its issues. -/
def limited (r : Report) (m : Nat) : Report := { r with maxIssues := m }

@[simp]
theorem issues_limited (r : Report) (m : Nat) : (r.limited m).issues = r.issues := rfl

@[simp]
theorem sick_limited (r : Report) (m : Nat) : (r.limited m).sick = r.sick := rfl

end Report

namespace Reporting

variable {α β : Type}

/-- **Truncation.** Without a limit the step yields a value and finds some issues. With a limit
above the number of issues so far it comes to the same if what it finds does not fill the report;
else it gives up, having recorded what it finds first. -/
def Truncates (act : Reporting α) : Prop :=
  ∀ r : Report, ∃ (a : α) (r' : Report) (found : List Issue),
    act (r.limited 0) = .ok a (r'.limited 0) ∧ r'.issues.toList = r.issues.toList ++ found ∧
    ∀ m, r.issues.size < m →
      (r.issues.size + found.length < m → act (r.limited m) = .ok a (r'.limited m)) ∧
      (m ≤ r.issues.size + found.length → ∃ r'', act (r.limited m) = .error .tooManyIssues r'' ∧
        r''.issues.toList = r.issues.toList ++ found.take (m - r.issues.size))

/-- Steps that record nothing and do not look at the limit. -/
theorem Truncates.of_eq_ok {act : Reporting α} {a : α} {g : Report → Report}
    (h : ∀ r m, act (r.limited m) = .ok a ((g r).limited m))
    (hg : ∀ r, (g r).issues = r.issues) : Truncates act := by
  refine fun r => ⟨a, g r, [], h r 0, by rw [hg, List.append_nil], fun m hm => ⟨fun _ => h r m, ?_⟩⟩
  exact fun hle => absurd hm (Nat.not_lt_of_le hle)

theorem truncates_pure (a : α) : Truncates (pure a) :=
  .of_eq_ok (g := id) (fun _ _ => rfl) fun _ => rfl

theorem truncates_info (words : List String) : Truncates (info words) := by
  refine .of_eq_ok (a := ())
    (g := fun r => if r.verbose then r.writeLine (" ".intercalate words) else r) (fun r m => ?_)
    fun r => ?_
  · show EStateM.Result.ok ()
      (if r.verbose = true then (r.limited m).writeLine _ else r.limited m) = _
    split <;> rfl
  · split <;> rfl

/-- **Sequencing.** The second step has the room that the first one left. -/
theorem Truncates.bind {act : Reporting α} {f : α → Reporting β} (h : Truncates act)
    (hf : ∀ a, Truncates (f a)) : Truncates (act >>= f) := by
  intro r
  obtain ⟨a, r₁, found₁, hall₁, hissues₁, hlimit₁⟩ := h r
  obtain ⟨b, r₂, found₂, hall₂, hissues₂, hlimit₂⟩ := hf a r₁
  have hsize₁ : r₁.issues.size = r.issues.size + found₁.length := by
    simpa using congrArg List.length hissues₁
  refine ⟨b, r₂, found₁ ++ found₂, (bind_of_eq_ok hall₁ f).trans hall₂, ?_, fun m hm => ?_⟩
  · rw [hissues₂, hissues₁, List.append_assoc]
  obtain ⟨hgo₁, hstop₁⟩ := hlimit₁ m hm
  rw [List.length_append]
  by_cases hroom : r.issues.size + found₁.length < m
  · obtain ⟨hgo₂, hstop₂⟩ := hlimit₂ m (hsize₁ ▸ hroom)
    refine ⟨fun hlt => (bind_of_eq_ok (hgo₁ hroom) f).trans (hgo₂ (by omega)), fun hle => ?_⟩
    obtain ⟨r', herror, hrecorded⟩ := hstop₂ (by omega)
    refine ⟨r', (bind_of_eq_ok (hgo₁ hroom) f).trans herror, ?_⟩
    -- all that the first step finds is among the first issues
    rw [hrecorded, hissues₁, hsize₁, List.append_assoc, List.take_append,
      List.take_of_length_le (i := m - r.issues.size) (by omega), Nat.sub_add_eq]
  · refine ⟨fun hlt => absurd hlt (by omega), fun _ => ?_⟩
    obtain ⟨r', herror, hrecorded⟩ := hstop₁ (Nat.le_of_not_lt hroom)
    refine ⟨r', bind_of_eq_error herror f, ?_⟩
    rw [hrecorded, List.take_append_of_le_length (by omega)]

/-- A step may look at all of the report but the limit. -/
theorem Truncates.get_bind {f : Report → Reporting α} (h : ∀ r m, f (r.limited m) = f r)
    (hf : ∀ r, Truncates (f r)) : Truncates (get >>= f) := by
  intro r
  have hget (m : Nat) : (get >>= f) (r.limited m) = f r (r.limited m) :=
    (bind_of_eq_ok rfl f).trans (by rw [h])
  simp only [hget]
  exact hf r r

theorem Truncates.forM {f : α → Reporting PUnit} (hf : ∀ a, Truncates (f a)) (as : List α) :
    Truncates (as.forM f) := by
  induction as with
  | nil => exact truncates_pure _
  | cons a as ih => exact (hf a).bind fun _ => ih

/-- **One issue** is recorded in any case, and the report gives up if it is then full. -/
theorem truncates_issue (i : Issue) : Truncates (issue i) := by
  intro r
  have hissue (m : Nat) : issue i (r.limited m) =
      if r.issues.size + 1 = m
        then .error .tooManyIssues (({ r with issues := r.issues.push i } : Report).limited m)
        else .ok () (({ r with issues := r.issues.push i } : Report).limited m) := by
    rw [issue_eq, Report.issues_limited, Array.size_push]
    rfl
  refine ⟨(), { r with issues := r.issues.push i }, [i], ?_, Array.toList_push, fun m hm => ?_⟩
  · rw [hissue, if_neg (Nat.succ_ne_zero _)]
  · rw [List.length_singleton, hissue]
    refine ⟨fun hlt => if_neg (Nat.ne_of_lt hlt), fun hle => ?_⟩
    obtain rfl : m = r.issues.size + 1 := by omega
    rw [if_pos rfl, Nat.add_sub_cancel_left]
    exact ⟨_, rfl, Array.toList_push⟩

theorem truncates_error (token : Token) (message : String) : Truncates (error token message) :=
  .get_bind (fun _ _ => rfl) fun _ => truncates_issue _

theorem truncates_errorAtPlace (line : Int) (offset : Nat) (message : String) :
    Truncates (errorAtPlace line offset message) :=
  .get_bind (fun _ _ => rfl) fun _ => truncates_issue _

/-! ### The phases -/

theorem truncates_scanText (text : String) : Truncates (scanText text) := by
  have hsource : Truncates (modify fun r : Report => { r with source := text } : Reporting Unit) :=
    .of_eq_ok (g := fun r => { r with source := text }) (fun _ _ => rfl) fun _ => rfl
  refine hsource.bind fun _ => ?_
  exact (Truncates.forM (fun _ => truncates_errorAtPlace _ _ _) _).bind fun _ => truncates_pure _

theorem truncates_parseText (text : String) : Truncates (parseText text) :=
  (truncates_scanText text).bind fun _ =>
    (Truncates.forM (fun _ => truncates_error _ _) _).bind fun _ => truncates_pure _

theorem truncates_link (statements : List (Stmt Blank)) : Truncates (link statements) :=
  (Truncates.forM (fun _ => truncates_error _ _) _).bind fun _ => truncates_pure _

theorem truncates_check (text : String) : Truncates (check text) := by
  refine (truncates_parseText text).bind fun statements => .get_bind (fun _ _ => rfl) fun r => ?_
  split
  · exact truncates_pure _
  · refine (truncates_info _).bind fun _ => (truncates_link statements).bind fun linked =>
      .get_bind (fun _ _ => rfl) fun r => ?_
    split
    · exact truncates_pure _
    · exact (truncates_info _).bind fun _ => truncates_pure _

/-! ### Two runs -/

/-- The issues on the report when a step has ended or given up. -/
def recorded : EStateM.Result GivingUp Report α → List Issue
  | .ok _ r | .error _ r => r.issues.toList

/-- **Two runs compared**, from a report without a limit and from the same with the limit `m`. The
second records the first of the issues that the first one finds, as many as there is room for; it
gives up exactly if they fill the report, and else comes to the same. -/
structure TruncatedAt (act : Reporting α) (r : Report) (m : Nat) (a : α) (r' : Report)
    (found : List Issue) : Prop where
  unlimited : act (r.limited 0) = .ok a (r'.limited 0)
  finds : r'.issues.toList = r.issues.toList ++ found
  records : recorded (act (r.limited m)) =
    r.issues.toList ++ found.take (min (m - r.issues.size) found.length)
  givesUp_iff : (∃ r'', act (r.limited m) = .error .tooManyIssues r'') ↔
    m - r.issues.size ≤ found.length
  completes : found.length < m - r.issues.size → act (r.limited m) = .ok a (r'.limited m)

/-- A report that is not full yet truncates. -/
theorem Truncates.exists_truncatedAt {act : Reporting α} (h : Truncates act) {r : Report} {m : Nat}
    (hm : r.issues.size < m) : ∃ a r' found, TruncatedAt act r m a r' found := by
  obtain ⟨a, r', found, hall, hfound, hlimit⟩ := h r
  obtain ⟨hgo, hstop⟩ := hlimit m hm
  refine ⟨a, r', found, hall, hfound, ?_, ⟨?_, fun hle => ?_⟩, fun hlt => hgo (by omega)⟩
  · by_cases hroom : r.issues.size + found.length < m
    · rw [hgo hroom, Nat.min_eq_right (by omega), List.take_length]
      exact hfound
    · obtain ⟨r'', herror, hrecorded⟩ := hstop (Nat.le_of_not_lt hroom)
      rw [herror, Nat.min_eq_left (by omega)]
      exact hrecorded
  · rintro ⟨r'', herror⟩
    by_contra hroom
    rw [hgo (by omega)] at herror
    cases herror
  · obtain ⟨r'', herror, -⟩ := hstop (by omega)
    exact ⟨r'', herror⟩

/-- **Giving up only truncates** checking a text, parsing it, and parsing it and filling in the
links: with a limit above the number of issues so far, the first issues are recorded that would be
found without a limit, and the report gives up exactly if these are as many as there is room for. -/
theorem check_truncated (text : String) {r : Report} {m : Nat} (hm : r.issues.size < m) :
    (∃ linked r' found, TruncatedAt (check text) r m linked r' found) ∧
    (∃ statements r' found, TruncatedAt (parseText text) r m statements r' found) ∧
    ∃ linked r' found, TruncatedAt (parseText text >>= link) r m linked r' found :=
  ⟨(truncates_check text).exists_truncatedAt hm, (truncates_parseText text).exists_truncatedAt hm,
    ((truncates_parseText text).bind truncates_link).exists_truncatedAt hm⟩

/-- A report that has an issue already. -/
def burdened : Report := { Report.fresh false 0 default with issues := #[⟨"earlier", [], []⟩] }

/-- Of three mistakes, one in each phase, there is room for two. -/
theorem check_truncated_burdened :
    recorded ((parseText "@ print; return;" >>= link) (burdened.limited 3)) =
        burdened.issues.toList ++
          [⟨"[line 1] Error: Unexpected character.", [⟨"@ print; return;", 1, 0, 1, ""⟩], []⟩,
            ⟨"[line 1] Error at ';': Expect expression.", [⟨"@ print; return;", 1, 7, 1, ""⟩], []⟩] ∧
      (∃ linked r' found, TruncatedAt (check "@ print; return;") burdened 3 linked r' found) ∧
      (∃ statements r' found,
        TruncatedAt (parseText "@ print; return;") burdened 3 statements r' found) ∧
      ∃ linked r' found,
        TruncatedAt (parseText "@ print; return;" >>= link) burdened 3 linked r' found :=
  ⟨by decide +kernel, check_truncated "@ print; return;" (by decide)⟩

/-! ### Mistakes reported in the midst of parsing -/

/-- Parsing a tape truncates, whatever is on it. -/
theorem truncates_parseTape {body : List Token} {eof : Token}
    (hbody : ∀ t ∈ body, t.kind ≠ .endOfText) (heof : eof.kind = .endOfText) :
    Truncates (Tape.parseTape (body ++ [eof])) := by
  rw [Tape.parseTape_eq_record hbody heof]
  exact (Truncates.forM (fun _ => truncates_error _ _) _).bind fun _ => truncates_pure _

/-- **Giving up only truncates, in the midst of parsing too.** A parser on a tape reports a mistake
when it meets it, and never gets to the rest of the tape if that fills the report. Still the report
holds the first issues of a run without a limit, on every tape whose last token alone stands for the
end of the text. The same goes for filling in the links behind it. -/
theorem tape_truncated {body : List Token} {eof : Token}
    (hbody : ∀ t ∈ body, t.kind ≠ .endOfText) (heof : eof.kind = .endOfText) {r : Report} {m : Nat}
    (hm : r.issues.size < m) :
    (∃ statements r' found,
      TruncatedAt (Tape.parseTape (body ++ [eof])) r m statements r' found) ∧
    ∃ linked r' found,
      TruncatedAt (Tape.parseTape (body ++ [eof]) >>= link) r m linked r' found := by
  have htape := truncates_parseTape hbody heof
  exact ⟨htape.exists_truncatedAt hm, (htape.bind truncates_link).exists_truncatedAt hm⟩

/-- Scanning a text and parsing its tokens from a tape truncates, and so does filling in the links
behind it. This is the step that checking a text begins with (`Tape.parseText_eq_parseTape`). -/
theorem tape_truncated_text (text : String) {r : Report} {m : Nat} (hm : r.issues.size < m) :
    let reading := scanText text >>= fun scanned =>
      Tape.parseTape (scanned.tokens ++ [scanned.endToken])
    (∃ statements r' found, TruncatedAt reading r m statements r' found) ∧
      ∃ linked r' found, TruncatedAt (reading >>= link) r m linked r' found := by
  intro reading
  have hreading : Truncates reading := by
    have hparse := truncates_parseText text
    rwa [Tape.parseText_eq_parseTape] at hparse
  exact ⟨hreading.exists_truncatedAt hm, (hreading.bind truncates_link).exists_truncatedAt hm⟩

end Reporting

end LoxInterpreter
