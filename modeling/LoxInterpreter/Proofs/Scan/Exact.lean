import LoxInterpreter.Check
import LoxInterpreter.Proofs.Accepted
import LoxInterpreter.Proofs.Scan.Language

/-!
# What a scan yields

A scan is known exactly: there is one way to cut a text by the rules of the lexicon, and one way to
read tokens and mistakes off the pieces (`Reads`), and that is what is found.

* `Token.At` says what token a piece is, and `LexicalMistake.At` what mistake. Lines are counted in
  the text itself: a token is on the line of its last character.
* `reads_iff`: reading by these rules yields the tokens and the mistakes of the scan.
* `scan_exact` puts this together with the cut, the end of the text and the report.
-/

namespace LoxInterpreter

/-! ### Tokens and mistakes by rule -/

/-- What kind of token a pattern makes of a spelling, and which value. -/
inductive Token.ReadAs (t : Token) : Pattern → Prop where
  | punctuation : LoxInterpreter.punctuation.lookup t.lexeme = some t.kind → t.literal = none →
    t.ReadAs .punctuation
  | number : t.kind = .number → t.literal = some (.number (readNumber t.lexeme.toList)) →
    t.ReadAs .number
  /-- A string is what stands between the quotes. -/
  | string {content : String} : t.kind = .string → t.literal = some (.text content) →
    t.lexeme.toList = '"' :: content.toList ++ ['"'] → t.ReadAs .string
  | word : t.kind = (keywords.lookup t.lexeme).getD .identifier → t.literal = none →
    t.ReadAs .word

/-- **The token of a piece** that begins at an offset in a text. -/
structure Token.At (t : Token) (text : List Char) (offset : Nat) (piece : Piece) : Prop where
  readAs : t.ReadAs piece.pattern
  offset_eq : t.offset = offset
  lexeme_eq : t.lexeme = String.ofList piece.text
  /-- The lexeme is the stretch of the text that begins at the offset. -/
  slice : t.lexeme.toList = (text.drop t.offset).take t.lexeme.length
  /-- The line feeds before the last character count. -/
  line_eq : t.line = 1 + ((text.take (t.offset + t.lexeme.length - 1)).count '\n' : Nat)

/-- **The mistake of a piece** that begins at an offset in a text. -/
inductive LexicalMistake.At (text : List Char) (offset : Nat) (piece : Piece) :
    LexicalMistake → Prop where
  /-- A stray character is blamed on its line. -/
  | stray : piece.pattern = .stray →
    At text offset piece ⟨.unexpectedCharacter, 1 + (text.take offset).count '\n', offset⟩
  /-- A string without an end is blamed on the last line of the text. -/
  | unterminated : piece.pattern = .unterminated →
    At text offset piece ⟨.unterminatedString, 1 + text.count '\n', offset⟩

/-- **Reading.** In the order of the pieces, blanks and comments yield nothing, and every other
piece yields one token or one mistake. -/
inductive Reads (text : List Char) :
    Nat → List Piece → List Token → List LexicalMistake → Prop where
  | nil {offset : Nat} : Reads text offset [] [] []
  | skip {offset : Nat} {piece : Piece} {ps : List Piece} {ts : List Token}
      {ms : List LexicalMistake} : piece.pattern = .blank ∨ piece.pattern = .comment →
    Reads text (offset + piece.text.length) ps ts ms → Reads text offset (piece :: ps) ts ms
  | token {offset : Nat} {piece : Piece} {ps : List Piece} {t : Token} {ts : List Token}
      {ms : List LexicalMistake} : t.At text offset piece →
    Reads text (offset + piece.text.length) ps ts ms → Reads text offset (piece :: ps) (t :: ts) ms
  | mistake {offset : Nat} {piece : Piece} {ps : List Piece} {ts : List Token}
      {m : LexicalMistake} {ms : List LexicalMistake} : LexicalMistake.At text offset piece m →
    Reads text (offset + piece.text.length) ps ts ms → Reads text offset (piece :: ps) ts (m :: ms)

/-! ### There is one way to read -/

section Unique

variable {text : List Char} {offset : Nat} {piece : Piece} {t u : Token} {m n : LexicalMistake}

/-- A spelling is read by a pattern in one way. -/
theorem Token.ReadAs.unique {q : Pattern} (ht : t.ReadAs q) (hu : u.ReadAs q)
    (h : t.lexeme = u.lexeme) : t.kind = u.kind ∧ t.literal = u.literal := by
  cases ht with
  | punctuation hkind hliteral =>
    cases hu with
    | punctuation hkind' hliteral' =>
      rw [h, hkind', Option.some_inj] at hkind
      exact ⟨hkind.symm, hliteral.trans hliteral'.symm⟩
  | number hkind hliteral =>
    cases hu with
    | number hkind' hliteral' =>
      exact ⟨hkind.trans hkind'.symm, by rw [hliteral, hliteral', h]⟩
  | string hkind hliteral hlexeme =>
    cases hu with
    | string hkind' hliteral' hlexeme' =>
      rw [h, hlexeme', List.append_left_inj, List.cons_inj_right, String.toList_inj] at hlexeme
      exact ⟨hkind.trans hkind'.symm, by rw [hliteral, hliteral', hlexeme]⟩
  | word hkind hliteral =>
    cases hu with
    | word hkind' hliteral' =>
      exact ⟨by rw [hkind, hkind', h], hliteral.trans hliteral'.symm⟩

theorem Token.At.unique (ht : t.At text offset piece) (hu : u.At text offset piece) : t = u := by
  have hlexeme := ht.lexeme_eq.trans hu.lexeme_eq.symm
  have hoffset := ht.offset_eq.trans hu.offset_eq.symm
  obtain ⟨hkind, hliteral⟩ := ht.readAs.unique hu.readAs hlexeme
  have hline : t.line = u.line := by rw [ht.line_eq, hu.line_eq, hlexeme, hoffset]
  cases t
  cases u
  cases hkind
  cases hlexeme
  cases hliteral
  cases hline
  cases hoffset
  rfl

theorem LexicalMistake.At.unique (hm : At text offset piece m) (hn : At text offset piece n) :
    m = n := by
  cases hm with
  | stray hq =>
    cases hn with
    | stray => rfl
    | unterminated hq' => exact absurd (hq.symm.trans hq') (by decide)
  | unterminated hq =>
    cases hn with
    | stray hq' => exact absurd (hq.symm.trans hq') (by decide)
    | unterminated => rfl

/-- A pattern that yields a token yields neither nothing nor a mistake. -/
theorem Token.At.pattern_mem (h : t.At text offset piece) :
    piece.pattern ∈ [Pattern.punctuation, .number, .string, .word] := by
  have hread := h.readAs
  generalize piece.pattern = q at hread ⊢
  cases hread <;> decide

theorem LexicalMistake.At.pattern_mem (h : At text offset piece m) :
    piece.pattern ∈ [Pattern.stray, .unterminated] := by
  cases h with
  | stray hq | unterminated hq =>
    rw [hq]
    decide

/-- Pieces are read in one way. -/
theorem Reads.unique {ps : List Piece} {ts us : List Token} {ms ns : List LexicalMistake}
    (h : Reads text offset ps ts ms) (h' : Reads text offset ps us ns) : ts = us ∧ ms = ns := by
  -- what a pattern yields is the same whoever reads
  have hskip {q : Pattern} (hq : q = .blank ∨ q = .comment) :
      q ∉ [Pattern.punctuation, .number, .string, .word] ∧ q ∉ [Pattern.stray, .unterminated] := by
    rcases hq with rfl | rfl <;> decide
  have hapart {q : Pattern} (hq : q ∈ [Pattern.punctuation, .number, .string, .word]) :
      q ∉ [Pattern.stray, .unterminated] := by
    revert q
    decide
  induction h generalizing us ns with
  | nil =>
    cases h'
    exact ⟨rfl, rfl⟩
  | skip hq _ ih =>
    cases h' with
    | skip _ hrest' => exact ih hrest'
    | token ht' _ => exact absurd ht'.pattern_mem (hskip hq).1
    | mistake hm' _ => exact absurd hm'.pattern_mem (hskip hq).2
  | token ht _ ih =>
    cases h' with
    | skip hq' _ => exact absurd ht.pattern_mem (hskip hq').1
    | token ht' hrest' =>
      obtain ⟨rfl, rfl⟩ := ih hrest'
      rw [ht.unique ht']
      exact ⟨rfl, rfl⟩
    | mistake hm' _ => exact absurd hm'.pattern_mem (hapart ht.pattern_mem)
  | mistake hm _ ih =>
    cases h' with
    | skip hq' _ => exact absurd hm.pattern_mem (hskip hq').2
    | token ht' _ => exact absurd hm.pattern_mem (hapart ht'.pattern_mem)
    | mistake hm' hrest' =>
      obtain ⟨rfl, rfl⟩ := ih hrest'
      rw [hm.unique hm']
      exact ⟨rfl, rfl⟩

end Unique

/-! ### Reading a scan -/

section Placed

variable {before w rest : List Char} {q : Pattern}

/-- The place behind some text. -/
theorem line_advance_start (before w : List Char) :
    ((Position.start.advance before).advance w).line = 1 + (before ++ w).count '\n' := by
  rw [← Position.advance_append, Nat.add_comm]
  simp [Position.advance, Position.start, Position.line]

theorem offset_advance_start (before : List Char) :
    (Position.start.advance before).offset = before.length :=
  Nat.zero_add _

/-- The place of a token behind some text. -/
theorem Token.at_of_readAs {t : Token} (hread : t.ReadAs q) (hw : w ≠ [])
    (hlexeme : t.lexeme = String.ofList w)
    (hoffset : t.offset = (Position.start.advance before).offset)
    (hline : t.line = ((Position.start.advance before).advance w.dropLast).line) :
    t.At (before ++ (w ++ rest)) before.length ⟨q, w⟩ where
  readAs := hread
  offset_eq := hoffset.trans (offset_advance_start before)
  lexeme_eq := hlexeme
  slice := by
    rw [hlexeme, hoffset, offset_advance_start, String.toList_ofList, String.length_ofList,
      List.drop_left, List.take_left]
  line_eq := by
    have hpos := List.length_pos_iff.mpr hw
    have htake : (before ++ (w ++ rest)).take (before.length + w.length - 1) =
        before ++ w.dropLast := by
      rw [Nat.add_sub_assoc hpos, List.take_length_add_append,
        List.take_append_of_le_length (Nat.sub_le _ _), List.dropLast_eq_take]
    rw [hline, hlexeme, hoffset, offset_advance_start, String.length_ofList, htake,
      line_advance_start]
    norm_cast

theorem eq_of_isQuote {c : Char} (h : Pattern.isQuote c = true) : c = '"' :=
  Char.toNat_inj.mp (eq_of_beq h)

/-- What stands between the quotes of a string. -/
theorem eq_quoted_of_mem_language (h : w ∈ Pattern.string.language) :
    w = '"' :: (w.drop 1).dropLast ++ ['"'] := by
  obtain ⟨c, v, hc, hv, rfl⟩ := Pattern.mem_oneOf_mul.mp h
  obtain ⟨inside, -, _, ⟨d, hd, rfl⟩, rfl⟩ := Language.mem_mul.mp hv
  rw [eq_of_isQuote hc, eq_of_isQuote hd, List.drop_one, List.tail_cons, List.dropLast_concat,
    List.cons_append]

/-- Nothing follows a string without an end: it goes on up to the next quote, which would end it. -/
theorem eq_nil_of_wins_unterminated (h : Pattern.unterminated.Wins w (w ++ rest)) : rest = [] := by
  cases rest with
  | nil => rfl
  | cons d rest =>
    obtain ⟨c, inside, hc, hinside, rfl⟩ := Pattern.mem_oneOf_mul.mp h.mem_language
    -- with the next character there is a longer match
    have hlonger : ∃ r : Pattern, c :: inside ++ [d] ∈ r.language := by
      rw [List.cons_append]
      by_cases hd : Pattern.isQuote d = true
      · refine ⟨.string, Pattern.mem_oneOf_mul.mpr ⟨c, inside ++ [d], hc, ?_, rfl⟩⟩
        exact Language.append_mem_mul hinside ⟨d, hd, rfl⟩
      · refine ⟨.unterminated, Pattern.mem_oneOf_mul.mpr ⟨c, inside ++ [d], hc, ?_, rfl⟩⟩
        rw [Pattern.mem_kstar_oneOf] at hinside ⊢
        refine List.forall_mem_append.mpr ⟨hinside, List.forall_mem_singleton.mpr ?_⟩
        rw [Bool.eq_false_iff.mpr hd]
        rfl
    obtain ⟨r, hr⟩ := hlonger
    have hle := h.longest r _ hr ⟨rest, by rw [List.append_assoc, List.singleton_append]⟩
    rw [List.length_append, List.length_singleton] at hle
    exact absurd hle (Nat.not_succ_le_self _)

/-- The place of a stray character behind some text. -/
theorem LexicalMistake.at_stray : LexicalMistake.At (before ++ rest) before.length ⟨.stray, w⟩
    ⟨.unexpectedCharacter, (Position.start.advance before).line,
      (Position.start.advance before).offset⟩ := by
  have hline := line_advance_start before []
  rw [Position.advance_nil, List.append_nil] at hline
  rw [hline, offset_advance_start]
  have hstray : LexicalMistake.At (before ++ rest) before.length ⟨.stray, w⟩
      ⟨.unexpectedCharacter, 1 + ((before ++ rest).take before.length).count '\n',
        before.length⟩ := .stray rfl
  rwa [List.take_left] at hstray

/-- The place of a string without an end behind some text. -/
theorem LexicalMistake.at_unterminated (h : Pattern.unterminated.Wins w (w ++ rest)) :
    LexicalMistake.At (before ++ (w ++ rest)) before.length ⟨.unterminated, w⟩
      ⟨.unterminatedString, ((Position.start.advance before).advance w).line,
        (Position.start.advance before).offset⟩ := by
  rw [eq_nil_of_wins_unterminated h, List.append_nil, line_advance_start, offset_advance_start]
  exact .unterminated rfl

/-- What is computed for pieces at their places is what is read off them. -/
theorem reads_placePieces {ps : List Piece} (h : Cut rest ps) (before : List Char) :
    Reads (before ++ rest) before.length ps
      ((placePieces (Position.start.advance before) ps).filterMap PlacedPiece.token?)
      ((placePieces (Position.start.advance before) ps).filterMap PlacedPiece.mistake?) := by
  induction h generalizing before with
  | nil => exact .nil
  | @cons q w rest ps hwins _ ih =>
    have hw := Pattern.ne_nil_of_mem_language hwins.mem_language
    have hrest := ih (before ++ w)
    rw [List.append_assoc, List.length_append, Position.advance_append] at hrest
    rw [placePieces, List.filterMap_cons, List.filterMap_cons]
    have hmem := hwins.mem_language
    cases q with
    | blank => exact .skip (.inl rfl) hrest
    | comment => exact .skip (.inr rfl) hrest
    | punctuation =>
      obtain ⟨kind, hkind⟩ := Option.isSome_iff_exists.mp (Pattern.isPunctuation_iff.mpr hmem)
      simp only [PlacedPiece.token?, hkind, Option.map_some]
      exact .token (Token.at_of_readAs (.punctuation hkind rfl) hw rfl rfl rfl) hrest
    | number =>
      have hread : readNumber w = readNumber (String.ofList w).toList := by
        rw [String.toList_ofList]
      exact .token (Token.at_of_readAs (.number rfl (by rw [hread])) hw rfl rfl rfl) hrest
    | string =>
      refine .token (Token.at_of_readAs (.string rfl rfl ?_) hw rfl rfl rfl) hrest
      rw [String.toList_ofList, String.toList_ofList]
      exact eq_quoted_of_mem_language hmem
    | word => exact .token (Token.at_of_readAs (.word rfl rfl) hw rfl rfl rfl) hrest
    | unterminated => exact .mistake (LexicalMistake.at_unterminated hwins) hrest
    | stray => exact .mistake LexicalMistake.at_stray hrest

end Placed

/-- **There is one way to read the pieces of a text**, and that is what a scan finds. -/
theorem reads_iff {text : String} {ts : List Token} {ms : List LexicalMistake} :
    Reads text.toList 0 (pieces text.toList) ts ms ↔
      ts = (scan text).tokens ∧ ms = (scan text).mistakes := by
  have hscan : Reads text.toList 0 (pieces text.toList) (scan text).tokens (scan text).mistakes :=
    reads_placePieces (cut_iff.mpr rfl) []
  constructor
  · exact fun h => h.unique hscan
  · rintro ⟨rfl, rfl⟩
    exact hscan

/-! ### Recording the mistakes -/

/-- The report with an issue for each mistake, in their order. -/
def Report.told (r : Report) (ms : List LexicalMistake) : Report :=
  { r with issues := (r.issues.toList ++
      ms.map fun m => r.issueAtPlace m.line m.offset m.cause.message).toArray }

theorem Report.told_nil (r : Report) : r.told [] = r := by
  simp [told]

theorem Report.told_told (r : Report) (ms ns : List LexicalMistake) :
    (r.told ms).told ns = r.told (ms ++ ns) := by
  simp [told, issueAtPlace]

namespace Reporting

theorem errorAtPlace_eq (m : LexicalMistake) (r : Report) :
    errorAtPlace m.line m.offset m.cause.message r =
      if (r.told [m]).issues.size = r.maxIssues then .error .tooManyIssues (r.told [m])
      else .ok () (r.told [m]) := by
  have htold : r.told [m] = { r with
      issues := r.issues.push (r.issueAtPlace m.line m.offset m.cause.message) } := by
    rw [Report.told, List.map_singleton, ← Array.toList_push]
  rw [htold, errorAtPlace]
  exact (bind_of_eq_ok rfl _).trans (issue_eq _ r)

/-- Recording mistakes in their order records all of them, unless the report gives up on one. -/
theorem forM_errorAtPlace_cases (ms : List LexicalMistake) (r : Report) :
    ms.forM (fun m => errorAtPlace m.line m.offset m.cause.message) r = .ok ⟨⟩ (r.told ms) ∨
    ∃ told, told <+: ms ∧ told ≠ [] ∧ (r.told told).issues.size = r.maxIssues ∧
      ms.forM (fun m => errorAtPlace m.line m.offset m.cause.message) r =
        .error .tooManyIssues (r.told told) := by
  induction ms generalizing r with
  | nil =>
    rw [Report.told_nil]
    exact Or.inl rfl
  | cons m ms ih =>
    have hstep := errorAtPlace_eq m r
    by_cases hfull : (r.told [m]).issues.size = r.maxIssues
    · rw [if_pos hfull] at hstep
      exact Or.inr ⟨[m], ⟨ms, rfl⟩, by simp, hfull, bind_of_eq_error hstep _⟩
    · rw [if_neg hfull] at hstep
      rcases ih (r.told [m]) with hok | ⟨told, htold, -, hsize, herror⟩
      · rw [Report.told_told] at hok
        exact Or.inl ((bind_of_eq_ok hstep _).trans hok)
      · rw [Report.told_told] at hsize herror
        exact Or.inr ⟨m :: told, List.cons_prefix_cons.mpr ⟨rfl, htold⟩, List.cons_ne_nil m told,
          hsize, (bind_of_eq_ok hstep _).trans herror⟩

end Reporting

/-- **A scan is exact.** A text is cut in one way by the rules of the lexicon, from its beginning to
its end and into pieces that are not empty. From the pieces tokens and mistakes are read in one way,
and these are the tokens and the mistakes of the scan. The end of the text is the last token. A
report gets one issue for each mistake, in the order of the text, unless it gives up on one. -/
theorem scan_exact (text : String) :
    (∃ ps, (∀ qs, Cut text.toList qs ↔ qs = ps) ∧
      ps.flatMap Piece.text = text.toList ∧ (∀ piece ∈ ps, piece.text ≠ []) ∧
      ∀ ts ms, Reads text.toList 0 ps ts ms ↔
        ts = (scan text).tokens ∧ ms = (scan text).mistakes) ∧
    (scan text).endToken =
      ⟨.endOfText, "", none, 1 + (text.toList.count '\n' : Nat), text.length⟩ ∧
    ∀ r : Report,
      let report := { r with source := text }
      Reporting.scanText text r = .ok (scan text) (report.told (scan text).mistakes) ∨
      ∃ told, told <+: (scan text).mistakes ∧ told ≠ [] ∧
        (report.told told).issues.size = r.maxIssues ∧
        Reporting.scanText text r = .error .tooManyIssues (report.told told) := by
  refine ⟨⟨pieces text.toList, fun _ => cut_iff, flatMap_pieces _, (cut_iff.mpr rfl).ne_nil,
    fun _ _ => reads_iff⟩, ?_, fun r => ?_⟩
  · have hline := line_advance_start text.toList []
    rw [Position.advance_nil, List.append_nil] at hline
    simp only [scan, hline, offset_advance_start, String.length_toList]
    norm_cast
  · rcases Reporting.forM_errorAtPlace_cases (scan text).mistakes { r with source := text } with
      hok | ⟨told, htold, hne, hsize, herror⟩
    · exact Or.inl (Reporting.bind_of_eq_ok hok _)
    · exact Or.inr ⟨told, htold, hne, hsize, Reporting.bind_of_eq_error herror _⟩

end LoxInterpreter
