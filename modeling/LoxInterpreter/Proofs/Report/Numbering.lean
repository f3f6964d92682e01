import LoxInterpreter.Proofs.Grammar.Blame
import LoxInterpreter.Proofs.Report.Limit
import LoxInterpreter.Proofs.Scan.Exact
import LoxInterpreter.Proofs.Scope.Blame

/-!
# The numbers of quoted lines

An issue has the number of a line in its headline, and shows a line with a number in the gutter. The
number comes from the scan, which counts line feeds up to the end of a lexeme; the line comes from
the offset of its first character, and lines are broken at carriage returns as well. How the two
numbers and the line belong together is said by `issue_numbering`: the number counts the line feeds
before the line that is shown, and those in what is blamed.

So the number is that of the line wherever nothing that is blamed goes over the end of a line. Quoted
text that does so belongs to the line where it ends, while the line that is shown is the one where
it begins (`number_manyLines`).
-/

namespace LoxInterpreter

/-! ### Lines of a text -/

namespace Excerpt

/-- A line ends at the first line feed, if it has one. -/
theorem breakAfter?_eq_some {text : List Char} {n m : Nat} (h : breakAfter? text n = some m) :
    ∃ k, m = n + k ∧ 0 < k ∧ k ≤ text.length ∧ '\n' ∉ (text.take k).dropLast := by
  induction text generalizing n with
  | nil => cases h
  | cons c rest ih =>
    rw [breakAfter?] at h
    split at h
    · cases h
      exact ⟨1, rfl, Nat.one_pos, by simp, by simp⟩
    · next hfeed =>
      split at h
      · next hreturn =>
        cases h
        split
        · next hnext =>
          -- the two together are one break
          obtain ⟨rest, rfl⟩ : ∃ rest', rest = '\n' :: rest' := List.head?_eq_some_iff.mp hnext
          exact ⟨2, rfl, by decide, by simp, by simpa using Ne.symm hfeed⟩
        · exact ⟨1, rfl, Nat.one_pos, by simp, by simp⟩
      · obtain ⟨k, rfl, hpos, hle, hmem⟩ := ih h
        refine ⟨k + 1, by omega, Nat.succ_pos k, by simpa using hle, ?_⟩
        have hne : rest.take k ≠ [] := by
          rw [ne_eq, List.take_eq_nil_iff, not_or]
          exact ⟨hpos.ne', List.ne_nil_of_length_pos (Nat.lt_of_lt_of_le hpos hle)⟩
        rw [List.take_succ_cons, List.dropLast_cons_of_ne_nil hne]
        exact List.not_mem_cons_of_ne_of_not_mem (Ne.symm hfeed) hmem

theorem not_mem_of_breakAfter?_eq_none {text : List Char} {n : Nat}
    (h : breakAfter? text n = none) : '\n' ∉ text := by
  induction text generalizing n with
  | nil => exact List.not_mem_nil
  | cons c rest ih =>
    rw [breakAfter?] at h
    split at h
    · cases h
    · next hfeed =>
      split at h
      · cases h
      · exact List.not_mem_cons_of_ne_of_not_mem (Ne.symm hfeed) (ih h)

/-- The excerpt is a line of the text that stands behind `before`, and its column is the place of
the offset in it. No line feed comes before the column. -/
structure Stands (e : Excerpt) (text : List Char) (offset : Nat) (before : List Char) : Prop where
  text_eq : ∃ after, text = before ++ e.line ++ after
  offset_eq : before.length + e.column = offset
  column_lt : e.column < e.line.length
  feed_not_mem : '\n' ∉ e.line.dropLast

theorem exists_stands_locateWithin {fuel : Nat} {text : List Char} {offset : Nat}
    (hfuel : text.length ≤ fuel) (h : offset < text.length) :
    ∃ before, (locateWithin fuel text offset).Stands text offset before := by
  induction fuel generalizing text offset with
  | zero => omega
  | succ fuel ih =>
    rw [locateWithin]
    split
    · next hnone =>
      have hmem := not_mem_of_breakAfter?_eq_none hnone
      exact ⟨[], ⟨[], (List.append_nil text).symm⟩, Nat.zero_add _, h,
        fun hfeed => hmem (List.dropLast_subset text hfeed)⟩
    · next n hsome =>
      obtain ⟨k, hk, hpos, hle, hmem⟩ := breakAfter?_eq_some hsome
      obtain rfl : n = k := hk.trans (Nat.zero_add k)
      split
      · next hn =>
        have hlength : (text.drop n).length = text.length - n := List.length_drop
        have hrest : (text.drop n).length ≤ fuel ∧ offset - n < (text.drop n).length := by omega
        obtain ⟨before, ⟨after, hafter⟩, hoffset, hcolumn, hfeed⟩ := ih hrest.1 hrest.2
        refine ⟨text.take n ++ before, ⟨after, ?_⟩, ?_, hcolumn, hfeed⟩
        · rw [List.append_assoc, List.append_assoc, ← List.append_assoc before, ← hafter,
            List.take_append_drop]
        · rw [List.length_append, List.length_take, Nat.min_eq_left hle]
          omega
      · next hn =>
        refine ⟨[], ⟨text.drop n, (List.take_append_drop n text).symm⟩, Nat.zero_add _, ?_, hmem⟩
        show offset < (text.take n).length
        rw [List.length_take, Nat.min_eq_left hle]
        exact Nat.lt_of_not_le hn

/-- **The line that is shown** for an offset in a text is a line of the text that holds it. -/
theorem exists_stands_locate {text : String} {offset : Nat} (h : offset < text.toList.length) :
    ∃ before, (locate text offset).Stands text.toList offset before :=
  exists_stands_locateWithin (String.length_toList ▸ Nat.le_refl _) h

/-- The line feeds before an offset are those before the line that holds it. -/
theorem Stands.count_take {e : Excerpt} {text before : List Char} {offset : Nat}
    (h : e.Stands text offset before) : (text.take offset).count '\n' = before.count '\n' := by
  obtain ⟨after, hafter⟩ := h.text_eq
  have htake : text.take offset = before ++ e.line.take e.column := by
    rw [hafter, ← h.offset_eq, List.append_assoc, List.take_length_add_append,
      List.take_append_of_le_length h.column_lt.le]
  have hnone : (e.line.take e.column).count '\n' = 0 := by
    refine List.count_eq_zero_of_not_mem fun hmem => h.feed_not_mem ?_
    rw [List.dropLast_eq_take]
    have hprefix := List.take_prefix_take_left (l := e.line) (Nat.le_sub_one_of_lt h.column_lt)
    exact hprefix.subset hmem
  rw [htake, List.count_append, hnone, Nat.add_zero]

end Excerpt

/-! ### Pieces of a text -/

namespace Pattern

variable {w rest : List Char}

/-- Of what is not blank, only quoted text goes over the end of a line. -/
theorem Wins.feed_not_mem {q : Pattern} (h : q.Wins w rest)
    (hq : q ∈ [punctuation, number, word, stray]) : '\n' ∉ w := by
  have hmem := h.mem_language
  cases q with
  | blank | comment | string | unterminated => exact absurd hq (by decide)
  | punctuation =>
    obtain ⟨kind, hkind⟩ := Option.isSome_iff_exists.mp (isPunctuation_iff.mpr hmem)
    have hno : ∀ entry ∈ LoxInterpreter.punctuation, '\n' ∉ entry.1.toList := by decide
    have hnot := hno _ (mem_of_lookup_eq_some hkind)
    rwa [String.toList_ofList] at hnot
  | number =>
    obtain ⟨whole, hwhole, fraction, hfraction, rfl⟩ := Language.mem_mul.mp hmem
    have hdigits {v : List Char} (hv : ∀ c ∈ v, isDigit c = true) : '\n' ∉ v :=
      fun hfeed => absurd (hv _ hfeed) (by decide)
    refine List.not_mem_append (hdigits (mem_plus_oneOf.mp hwhole).2) ?_
    rcases (Language.mem_add ..).mp hfraction with hnone | hsome
    · rw [(Language.mem_one _).mp hnone]
      exact List.not_mem_nil
    · obtain ⟨c, v, hc, hv, rfl⟩ := mem_oneOf_mul.mp hsome
      obtain rfl : c = '.' := eq_of_beq hc
      exact List.not_mem_cons_of_ne_of_not_mem (by decide) (hdigits (mem_plus_oneOf.mp hv).2)
  | word =>
    obtain ⟨c, v, hc, hv, rfl⟩ := mem_oneOf_mul.mp hmem
    refine List.not_mem_cons_of_ne_of_not_mem ?_ fun hfeed => ?_
    · rintro rfl
      exact absurd hc (by decide)
    · exact absurd (mem_kstar_oneOf.mp hv _ hfeed) (by decide)
  | stray =>
    obtain ⟨c, -, rfl⟩ := hmem
    rw [List.mem_singleton]
    rintro rfl
    -- a line feed is blank, and blanks come first
    have hblank : ['\n'] ∈ blank.language :=
      mem_plus_oneOf.mpr ⟨by decide, List.forall_mem_singleton.mpr (by decide)⟩
    exact absurd (h.first blank hblank) (by decide)

end Pattern

/-- Each piece wins on what is left of the text where it begins. -/
theorem Cut.exists_wins {text : List Char} {ps : List Piece} (h : Cut text ps) :
    ∀ piece ∈ ps, ∃ rest, piece.pattern.Wins piece.text rest := by
  induction h with
  | nil => exact List.forall_mem_nil _
  | cons hwins _ ih => exact List.forall_mem_cons.mpr ⟨⟨_, hwins⟩, ih⟩

theorem exists_eq_append_of_mem_placePieces {ps : List Piece} {before : List Char}
    {p : PlacedPiece} (h : p ∈ placePieces (Position.start.advance before) ps) :
    ∃ pre post, before ++ ps.flatMap Piece.text = pre ++ (p.text ++ post) ∧
      p.start = Position.start.advance pre ∧ p.toPiece ∈ ps := by
  induction ps generalizing before with
  | nil => cases h
  | cons piece rest ih =>
    rcases List.mem_cons.mp h with rfl | h
    · exact ⟨before, rest.flatMap Piece.text, rfl, rfl, List.mem_cons_self⟩
    · rw [← Position.advance_append] at h
      obtain ⟨pre, post, htext, hstart, hmem⟩ := ih h
      rw [List.append_assoc] at htext
      exact ⟨pre, post, htext, hstart, List.mem_cons_of_mem piece hmem⟩

/-- The piece stands in the text behind `pre`. -/
structure PlacedPiece.Behind (p : PlacedPiece) (text : List Char) (pre : List Char) : Prop where
  text_eq : ∃ post, text = pre ++ (p.text ++ post)
  start_eq : p.start = Position.start.advance pre
  wins : ∃ rest, p.pattern.Wins p.text rest

/-- The pieces of a text at their places. -/
def placedPieces (text : String) : List PlacedPiece := placePieces .start (pieces text.toList)

theorem exists_behind {text : String} {p : PlacedPiece} (h : p ∈ placedPieces text) :
    ∃ pre, p.Behind text.toList pre := by
  have hplaced : p ∈ placePieces (Position.start.advance []) (pieces text.toList) := h
  obtain ⟨pre, post, htext, hstart, hmem⟩ := exists_eq_append_of_mem_placePieces hplaced
  rw [List.nil_append, flatMap_pieces] at htext
  exact ⟨pre, ⟨post, htext⟩, hstart, (cut_iff.mpr rfl).exists_wins _ hmem⟩

namespace PlacedPiece

variable {p : PlacedPiece} {text pre : List Char}

theorem Behind.offset_eq (h : p.Behind text pre) : p.start.offset = pre.length := by
  rw [h.start_eq, offset_advance_start]

theorem Behind.offset_lt (h : p.Behind text pre) : p.start.offset < text.length := by
  obtain ⟨post, hpost⟩ := h.text_eq
  obtain ⟨rest, hwins⟩ := h.wins
  have hpos := List.length_pos_iff.mpr (Pattern.ne_nil_of_mem_language hwins.mem_language)
  rw [h.offset_eq, hpost, List.length_append, List.length_append]
  omega

/-- Before the piece there are as many line feeds as before the line that it begins in. -/
theorem Behind.count_eq (h : p.Behind text pre) {e : Excerpt} {before : List Char}
    (he : e.Stands text p.start.offset before) : pre.count '\n' = before.count '\n' := by
  obtain ⟨post, hpost⟩ := h.text_eq
  rw [← he.count_take, h.offset_eq, hpost, List.take_left]

/-- A piece that yields a token does not end in a line feed. -/
theorem Behind.count_dropLast (h : p.Behind text pre) {t : Token} (ht : p.token? = some t) :
    p.text.dropLast.count '\n' = p.text.count '\n' := by
  obtain ⟨rest, hwins⟩ := h.wins
  have hnone (hq : p.pattern ∈ [.punctuation, .number, .word, .stray]) :
      p.text.dropLast.count '\n' = p.text.count '\n' := by
    have hmem := hwins.feed_not_mem hq
    rw [List.count_eq_zero_of_not_mem hmem,
      List.count_eq_zero_of_not_mem fun hfeed => hmem (List.dropLast_subset _ hfeed)]
  rw [token?] at ht
  split at ht
  · next hq => exact hnone (by rw [hq]; decide)
  · next hq => exact hnone (by rw [hq]; decide)
  · next hq =>
    rw [hq] at hwins
    have hquoted := eq_quoted_of_mem_language hwins.mem_language
    rw [hquoted, List.dropLast_concat, List.count_append]
    rfl
  · next hq => exact hnone (by rw [hq]; decide)
  all_goals cases ht

/-- **The line of a token.** -/
theorem Behind.line_token? (h : p.Behind text pre) {t : Token} (ht : p.token? = some t) :
    t.line = (1 + (pre.count '\n' + p.text.count '\n') : Nat) := by
  have hline : t.line = (p.start.advance p.text.dropLast).line := by
    rw [token?] at ht
    split at ht
    · obtain ⟨kind, -, rfl⟩ := Option.map_eq_some_iff.mp ht
      rfl
    all_goals cases ht
    all_goals rfl
  rw [hline, h.start_eq, line_advance_start, List.count_append, h.count_dropLast ht]

/-- **The line of a mistake.** -/
theorem Behind.line_mistake? (h : p.Behind text pre) {m : LexicalMistake}
    (hm : p.mistake? = some m) :
    m.line = 1 + (pre.count '\n' + p.text.count '\n') ∧ m.offset = p.start.offset := by
  obtain ⟨rest, hwins⟩ := h.wins
  rw [mistake?] at hm
  split at hm
  · cases hm
    rw [h.start_eq, line_advance_start, List.count_append]
    exact ⟨rfl, rfl⟩
  · next hq =>
    cases hm
    have hmem := hwins.feed_not_mem (by rw [hq]; decide)
    have hline := line_advance_start pre []
    rw [Position.advance_nil, List.append_nil] at hline
    rw [h.start_eq, hline, List.count_eq_zero_of_not_mem hmem]
    exact ⟨rfl, rfl⟩
  · cases hm

end PlacedPiece

/-! ### Issues about pieces -/

/-- **The number of an issue** about a piece of the text. Its one illustration shows the line that
holds the first character of the piece, and `before` is the text before that line. The number in
the headline and in the gutter counts the line feeds before the line and in the piece. Only quoted
text has any in it. -/
structure Issue.Numbers (i : Issue) (text : String) (p : PlacedPiece) (before : List Char) :
    Prop where
  piece_mem : p ∈ placedPieces text
  stands : (Excerpt.locate text p.start.offset).Stands text.toList p.start.offset before
  text_eq : ∃ problem width,
    let number : Int := (1 + (before.count '\n' + p.text.count '\n') : Nat)
    i.text = "[line " ++ toString number ++ "] " ++ problem ++ "\n" ++
      (Excerpt.locate text p.start.offset).illustrate number width ""
  quoted : '\n' ∈ p.text → p.pattern = .string ∨ p.pattern = .unterminated

/-- The issue has no illustration, or a number that fits it. -/
def Issue.Numbered (text : String) (i : Issue) : Prop :=
  i.annotations = [] ∨ ∃ p before, i.Numbers text p before

/-- The text of an issue with one illustration. -/
theorem Issue.text_singleton (headline : String) (a : Annotation) :
    (⟨headline, [a], []⟩ : Issue).text = headline ++ "\n" ++ a.illustrate := rfl

/-- Of the pieces that are no blanks and no comments, only quoted text has line feeds in it. -/
theorem PlacedPiece.Behind.quoted {p : PlacedPiece} {text pre : List Char}
    (h : p.Behind text pre) (hpattern : p.pattern ≠ .blank ∧ p.pattern ≠ .comment)
    (hfeed : '\n' ∈ p.text) : p.pattern = .string ∨ p.pattern = .unterminated := by
  obtain ⟨rest, hwins⟩ := h.wins
  have hnot := fun hq => hwins.feed_not_mem hq hfeed
  generalize p.pattern = q at hpattern hnot ⊢
  cases q with
  | blank => exact absurd rfl hpattern.1
  | comment => exact absurd rfl hpattern.2
  | string => exact .inl rfl
  | unterminated => exact .inr rfl
  | punctuation | number | word | stray => exact (hnot (by decide)).elim

section Recorded

variable {text : String} {r : Report}

/-- An issue is numbered if its number is that of a piece. -/
theorem numbers_of_line {p : PlacedPiece} {pre : List Char} (hp : p ∈ placedPieces text)
    (h : p.Behind text.toList pre) (hpattern : p.pattern ≠ .blank ∧ p.pattern ≠ .comment)
    {line : Int} (hline : line = (1 + (pre.count '\n' + p.text.count '\n') : Nat)) {offset : Nat}
    (hoffset : offset = p.start.offset) (problem : String) (width : Int) :
    ∃ before, Issue.Numbers ⟨"[line " ++ toString line ++ "] " ++ problem,
      [⟨text, line, offset, width, ""⟩], []⟩ text p before := by
  obtain ⟨before, hstands⟩ := Excerpt.exists_stands_locate h.offset_lt
  rw [h.count_eq hstands] at hline
  subst hline hoffset
  exact ⟨before, hp, hstands, ⟨problem, width, Issue.text_singleton _ _⟩, h.quoted hpattern⟩

theorem numbered_issueAt {t : Token} (ht : t ∈ (scan text).tokens) (hr : r.source = text)
    (message : String) : (r.issueAt t message).Numbered text := by
  obtain ⟨p, hp, htoken⟩ := List.mem_filterMap.mp ht
  obtain ⟨pre, hpre⟩ := exists_behind hp
  have hpattern : p.pattern ≠ .blank ∧ p.pattern ≠ .comment := by
    constructor
    all_goals
      intro hq
      rw [PlacedPiece.token?, hq] at htoken
      cases htoken
  obtain ⟨before, hnumbers⟩ := numbers_of_line hp hpre hpattern (hpre.line_token? htoken)
    (PlacedPiece.offset_token? htoken) ("Error at " ++ ("'" ++ t.lexeme ++ "': " ++ message))
    t.lexeme.length
  have hheadline : "[line " ++ toString t.line ++ "] Error at " ++ "'" ++ t.lexeme ++ "': " ++
      message = "[line " ++ toString t.line ++ "] " ++
        ("Error at " ++ ("'" ++ t.lexeme ++ "': " ++ message)) := by
    have hsplit (rest : String) : "] Error at " ++ rest = "] " ++ ("Error at " ++ rest) := by
      rw [← String.append_assoc]
      rfl
    simp only [String.append_assoc, hsplit]
  rw [Report.issueAt, hr]
  split
  · exact .inl rfl
  · rw [hheadline]
    exact .inr ⟨p, before, hnumbers⟩

theorem numbered_issueAtPlace {m : LexicalMistake} (hm : m ∈ (scan text).mistakes)
    (hr : r.source = text) (message : String) :
    (r.issueAtPlace m.line m.offset message).Numbered text := by
  obtain ⟨p, hp, hmistake⟩ := List.mem_filterMap.mp hm
  obtain ⟨pre, hpre⟩ := exists_behind hp
  have hpattern : p.pattern ≠ .blank ∧ p.pattern ≠ .comment := by
    constructor
    all_goals
      intro hq
      rw [PlacedPiece.mistake?, hq] at hmistake
      cases hmistake
  obtain ⟨hline, hoffset⟩ := hpre.line_mistake? hmistake
  obtain ⟨before, hnumbers⟩ := numbers_of_line hp hpre hpattern (congrArg Nat.cast hline) hoffset
    ("Error: " ++ message) 1
  have hheadline : "[line " ++ toString (m.line : Int) ++ "] Error: " ++ message =
      "[line " ++ toString (m.line : Int) ++ "] " ++ ("Error: " ++ message) := by
    have hsplit (rest : String) : "] Error: " ++ rest = "] " ++ ("Error: " ++ rest) := by
      rw [← String.append_assoc]
      rfl
    simp only [String.append_assoc, hsplit]
  rw [Report.issueAtPlace, hr, hheadline]
  exact .inr ⟨p, before, hnumbers⟩

end Recorded

/-! ### What the phases record -/

/-- The report has the source, and more issues than the one before, which have the property. -/
structure Report.Gains (text : String) (P : Issue → Prop) (r r' : Report) : Prop where
  source_eq : r'.source = text
  issues_eq : ∃ new, r'.issues.toList = r.issues.toList ++ new ∧ ∀ i ∈ new, P i

theorem Report.Gains.refl {text : String} {P : Issue → Prop} {r : Report} (hr : r.source = text) :
    r.Gains text P r :=
  ⟨hr, [], (List.append_nil _).symm, List.forall_mem_nil _⟩

theorem Report.Gains.trans {text : String} {P : Issue → Prop} {r r' r'' : Report}
    (h : r.Gains text P r') (h' : r'.Gains text P r'') : r.Gains text P r'' := by
  obtain ⟨new, hnew, hP⟩ := h.issues_eq
  obtain ⟨more, hmore, hP'⟩ := h'.issues_eq
  refine ⟨h'.source_eq, new ++ more, ?_, List.forall_mem_append.mpr ⟨hP, hP'⟩⟩
  rw [hmore, hnew, List.append_assoc]

namespace Reporting

variable {α β : Type} {text : String} {P : Issue → Prop} {act : Reporting α}
  {f : α → Reporting β}

/-- The report when a step has ended or given up. -/
def left : EStateM.Result GivingUp Report α → Report
  | .ok _ r | .error _ r => r

/-- On a report with the source, all that the step records has the property. -/
def Records (text : String) (P : Issue → Prop) (act : Reporting α) : Prop :=
  ∀ r : Report, r.source = text → r.Gains text P (left (act r))

/-- What two steps record from some report. -/
theorem gains_bind {r : Report} (h : r.Gains text P (left (act r)))
    (hf : ∀ a r', act r = .ok a r' → r'.source = text → r'.Gains text P (left (f a r'))) :
    r.Gains text P (left ((act >>= f) r)) := by
  cases heq : act r with
  | ok a r' =>
    rw [heq] at h
    rw [bind_of_eq_ok heq]
    exact h.trans (hf a r' heq h.source_eq)
  | error why r' =>
    rw [heq] at h
    rw [bind_of_eq_error heq]
    exact h

namespace Records

protected theorem pure (a : α) : Records text P (pure a) := fun _ hr => .refl hr

protected theorem bind (h : Records text P act) (hf : ∀ a, Records text P (f a)) :
    Records text P (act >>= f) :=
  fun r hr => gains_bind (h r hr) fun a r' _ hr' => hf a r' hr'

theorem get_bind {g : Report → Reporting β} (h : ∀ r, r.source = text → Records text P (g r)) :
    Records text P (get >>= g) :=
  fun r hr => h r hr r hr

theorem forM {f : β → Reporting PUnit} {as : List β} (h : ∀ a ∈ as, Records text P (f a)) :
    Records text P (as.forM f) := by
  induction as with
  | nil => exact .pure _
  | cons a as ih =>
    obtain ⟨ha, has⟩ := List.forall_mem_cons.mp h
    exact ha.bind fun _ => ih has

end Records

theorem records_issue {i : Issue} (hi : P i) : Records text P (issue i) := by
  intro r hr
  have hgains : r.Gains text P { r with issues := r.issues.push i } :=
    ⟨hr, [i], Array.toList_push, List.forall_mem_singleton.mpr hi⟩
  rw [issue_eq]
  split <;> exact hgains

theorem records_info (words : List String) : Records text P (info words) := by
  intro r hr
  show r.Gains text P (if r.verbose then r.writeLine (" ".intercalate words) else r)
  split
  · exact ⟨hr, [], (List.append_nil _).symm, List.forall_mem_nil _⟩
  · exact .refl hr

theorem records_error {t : Token} (ht : t.kind = .endOfText ∨ t ∈ (scan text).tokens)
    (message : String) : Records text (Issue.Numbered text) (error t message) := by
  refine .get_bind fun r hr => records_issue ?_
  rcases ht with hend | ht
  · rw [Report.issueAt, hend]
    exact .inl rfl
  · exact numbered_issueAt ht hr message

theorem records_errorAtPlace {m : LexicalMistake} (hm : m ∈ (scan text).mistakes)
    (message : String) :
    Records text (Issue.Numbered text) (errorAtPlace m.line m.offset message) :=
  .get_bind fun _ hr => records_issue (numbered_issueAtPlace hm hr message)

/-- Scanning and parsing blame pieces of the text. -/
theorem gains_parseText (text : String) (r : Report) :
    r.Gains text (Issue.Numbered text) (left (parseText text r)) := by
  have hscan : r.Gains text (Issue.Numbered text) (left (scanText text r)) := by
    have hsource : r.Gains text (Issue.Numbered text) { r with source := text } :=
      ⟨rfl, [], (List.append_nil _).symm, List.forall_mem_nil _⟩
    refine gains_bind hsource fun _ r' _ hr' => ?_
    refine gains_bind (Records.forM (fun m hm => ?_) r' hr') fun _ r'' _ hr'' => .refl hr''
    exact records_errorAtPlace hm _
  refine gains_bind hscan fun scanned r' hok hr' => ?_
  obtain ⟨rfl, -⟩ := scanText_eq_ok hok
  refine gains_bind (Records.forM (fun m hm => ?_) r' hr') fun _ r'' _ hr'' => .refl hr''
  -- a mistake at the end is blamed on the token that stands for it
  cases htoken : m.token with
  | none => exact records_error (.inl rfl) _
  | some t => exact records_error (.inr (mem_of_mem_mistakes_parse hm t htoken)) _

/-- Filling in the links blames tokens of the text. -/
theorem records_link {statements : List (Stmt Blank)}
    (h : Grammar.Program (scan text).tokens statements) :
    Records text (Issue.Numbered text) (link statements) := by
  refine .bind (.forM fun m hm => ?_) fun _ => .pure _
  exact records_error (.inr (forall_mem_scopeMistakes_of_program h m hm)) _

/-- Checking blames pieces of the text. -/
theorem gains_check (text : String) (r : Report) :
    r.Gains text (Issue.Numbered text) (left (check text r)) := by
  refine gains_bind (gains_parseText text r) fun statements r' hok hr' => ?_
  have hlook : r'.Gains text (Issue.Numbered text) (left ((get : Reporting Report) r')) := .refl hr'
  refine gains_bind hlook fun _ r'' hget hr'' => ?_
  cases hget
  split
  · exact .refl hr''
  · next hs =>
    -- scopes are analysed only where parsing has found nothing wrong
    obtain ⟨rfl, -, hparsed⟩ := parseText_eq_ok hok hs
    have hlink := records_link (Parse.parse_sound hparsed)
    refine Records.bind (records_info _) (fun _ => hlink.bind fun linked => ?_) _ hr''
    refine .get_bind fun r _ => ?_
    split
    · exact .pure _
    · exact (records_info _).bind fun _ => .pure _

theorem recorded_eq (result : EStateM.Result GivingUp Report α) :
    recorded result = (left result).issues.toList := by
  cases result <;> rfl

/-- **Numbers of lines.** Whatever checking or parsing a text adds to a report: every issue with an
illustration has a number that counts the line feeds before the line that is shown and in the piece
that is blamed. It is the number of the line shown unless quoted text goes over the end of it. -/
theorem issue_numbering (text : String) (r : Report) :
    (∃ new, recorded (check text r) = r.issues.toList ++ new ∧
      ∀ i ∈ new, i.annotations = [] ∨ ∃ p before, i.Numbers text p before) ∧
    ∃ new, recorded (parseText text r) = r.issues.toList ++ new ∧
      ∀ i ∈ new, i.annotations = [] ∨ ∃ p before, i.Numbers text p before := by
  rw [recorded_eq, recorded_eq]
  exact ⟨(gains_check text r).issues_eq, (gains_parseText text r).issues_eq⟩

/-- A text with a semicolon missing in front of quoted text that goes over the end of its line. -/
def manyLines : String := "x \"a\nb\";"

/-- The first line is shown, and has the number of the second. -/
theorem number_manyLines :
    recorded (check manyLines (.quiet "")) =
        [⟨"[line 2] Error at '\"a\nb\"': Expect ';' after expression.",
          [⟨manyLines, 2, 2, 5, ""⟩], []⟩] ∧
      (recorded (check manyLines (.quiet ""))).map Issue.text =
        ["[line 2] Error at '\"a\nb\"': Expect ';' after expression.\n     2 |x \"a\n          ^^^ "] ∧
      ∃ before, (Excerpt.locate manyLines 2).Stands manyLines.toList 2 before ∧
        (2 : Int) ≠ (1 + before.count '\n' : Nat) := by
  refine ⟨by decide +kernel, by decide +kernel, [], ⟨⟨['b', '"', ';'], ?_⟩, rfl, ?_, ?_⟩, ?_⟩
  · decide +kernel
  · decide +kernel
  · decide +kernel
  · decide

end Reporting

end LoxInterpreter
