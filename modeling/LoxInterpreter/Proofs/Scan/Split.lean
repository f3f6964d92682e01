import LoxInterpreter.Proofs.Scan.Token

/-!
# Texts in two parts

A line feed is a safe place to cut a text: behind a text in which every string is closed, no pattern
but that for blanks goes on over it (`Pattern.winner_append_feed`). So the tokens of two texts with a
line feed between them are those of the first and those of the second, which have moved along
(`tokens_append_feed`), and so it is with the mistakes.
-/

namespace LoxInterpreter

namespace Pattern

variable {c : Char} {text rest : List Char}

/-! ### Classes of characters -/

/-- Blanks and quotes, one by one. -/
theorem mem_of_isBlank_or_isQuote (h : isBlank c = true ∨ isQuote c = true) :
    c ∈ [9, 10, 11, 12, 13, 32, 34].map Char.ofNat := by
  have hcode : c.toNat ∈ [9, 10, 11, 12, 13, 32, 34] := by
    rcases h with h | h
    · rcases Bool.or_eq_true_iff.mp h with h | h
      · obtain ⟨hge, hle⟩ : 9 ≤ c.toNat ∧ c.toNat ≤ 13 := by simpa using h
        simp only [List.mem_cons]
        omega
      · rw [eq_of_beq h]
        decide
    · rw [eq_of_beq h]
      decide
  rw [← Char.ofNat_toNat c]
  exact List.mem_map_of_mem hcode

/-- Blanks and quotes begin nothing but blanks and strings. -/
theorem classes_of_isBlank_or_isQuote (h : isBlank c = true ∨ isQuote c = true) :
    isDigit c = false ∧ isWordStart c = false ∧ c ≠ '/' ∧ (isBlank c = true → isQuote c = false) := by
  have hall : ∀ n ∈ [9, 10, 11, 12, 13, 32, 34], isDigit (Char.ofNat n) = false ∧
      isWordStart (Char.ofNat n) = false ∧ Char.ofNat n ≠ '/' ∧
      (isBlank (Char.ofNat n) = true → isQuote (Char.ofNat n) = false) := by
    decide
  obtain ⟨n, hn, rfl⟩ := List.mem_map.mp (mem_of_isBlank_or_isQuote h)
  exact hall n hn

/-- Operators and brackets have neither blanks nor quotes in them. -/
theorem classes_of_isPunctuation {spelling : List Char} (h : isPunctuation spelling = true) :
    ∀ c ∈ spelling, isBlank c = false ∧ isQuote c = false := by
  obtain ⟨kind, hkind⟩ := Option.isSome_iff_exists.mp h
  have hmem := mem_of_lookup_eq_some hkind
  have hall : ∀ entry ∈ LoxInterpreter.punctuation,
      entry.1.toList.all (fun c => !isBlank c && !isQuote c) = true := by
    decide
  simpa using hall _ hmem

/-! ### Matches that end before a line feed -/

/-- A run of what no line feed is among ends before it. -/
theorem run_append_feed {p : Char → Bool} (hp : p '\n' = false) (text rest : List Char) :
    run p (text ++ '\n' :: rest) = run p text := by
  rw [run, run, List.takeWhile_append]
  split
  · next h => rw [List.takeWhile_cons_of_neg (by simp [hp]), List.append_nil, h]
  · rfl

/-- A run that ends in the text is not changed by what follows. -/
theorem run_append_of_lt {p : Char → Bool} (h : run p text < text.length) (rest : List Char) :
    run p (text ++ rest) = run p text := by
  rw [run] at h
  rw [run, run, List.takeWhile_append, if_neg (Nat.ne_of_lt h)]

/-- Something in the text ends a run. -/
theorem run_lt_length {p : Char → Bool} (h : ∃ c ∈ text, p c = false) :
    run p text < text.length := by
  refine Nat.lt_of_le_of_ne (run_le p text) fun heq => ?_
  obtain ⟨c, hc, hpc⟩ := h
  have hall := (List.takeWhile_prefix p).eq_of_length heq
  rw [← hall] at hc
  exact absurd (List.all_eq_true.mp List.all_takeWhile c hc) (by simp [hpc])

theorem longest_comment (c d : Char) (rest : List Char) :
    comment.longest (c :: d :: rest) = if c = '/' ∧ d = '/' then 2 + run isInline rest else 0 := by
  split
  · next h =>
    obtain ⟨rfl, rfl⟩ := h
    rfl
  · next h =>
    rw [longest]
    rintro rest' ⟨⟩
    exact h ⟨rfl, rfl⟩

/-- The text does not begin with a string that has no end. -/
def Closed (text : List Char) : Prop :=
  ∀ c rest, text = c :: rest → isQuote c = true → run (fun d => !isQuote d) rest < rest.length

/-- No pattern goes on over a line feed, but for blanks. -/
theorem longest_append_feed (hclosed : Closed text) (hblank : ∃ c ∈ text, isBlank c = false)
    (p : Pattern) (rest : List Char) : p.longest (text ++ '\n' :: rest) = p.longest text := by
  have hfeed {spelling : List Char} (h : '\n' ∈ spelling) : isPunctuation spelling = false := by
    rw [Bool.eq_false_iff]
    intro hspelling
    exact absurd (classes_of_isPunctuation hspelling _ h).1 (by decide)
  obtain ⟨c, text, rfl⟩ : ∃ c text', text = c :: text' := by
    obtain ⟨c, hc, -⟩ := hblank
    exact List.exists_cons_of_ne_nil (List.ne_nil_of_mem hc)
  cases p with
  | blank => exact run_append_of_lt (run_lt_length hblank) _
  | comment =>
    cases text with
    | nil =>
      show comment.longest (c :: '\n' :: rest) = comment.longest [c]
      rw [longest_comment, if_neg (by simp), longest]
      rintro rest' ⟨⟩
    | cons d text =>
      rw [List.cons_append, List.cons_append, longest_comment, longest_comment,
        run_append_feed (by decide)]
  | punctuation =>
    cases text with
    | nil => simp [longest, hfeed]
    | cons d text => rfl
  | number =>
    have hle := run_le isDigit (c :: text)
    rw [longest, longest, run_append_feed (by decide), List.drop_append_of_le_length hle]
    cases (c :: text).drop (run isDigit (c :: text)) with
    | nil => rfl
    | cons d rest' =>
      by_cases hd : d = '.'
      · subst hd
        simp only [List.cons_append, run_append_feed (show isDigit '\n' = false by decide)]
      · simp [hd]
  | string =>
    rw [List.cons_append, longest, longest]
    split
    · next hquote =>
      have hlt := hclosed c text rfl hquote
      simp only [run_append_of_lt hlt, List.length_append, if_pos hlt]
      rw [if_pos (by omega)]
    · rfl
  | word => rw [List.cons_append, longest, longest, run_append_feed (by decide)]
  | unterminated =>
    rw [List.cons_append, longest, longest]
    split
    · next hquote => rw [run_append_of_lt (hclosed c text rfl hquote)]
    · rfl
  | stray => rfl

/-- **Maximal munch at a line feed.** Behind a text of more than blanks, in which a string that it
begins with is closed, a line feed changes nothing about the first piece. -/
theorem winner_append_feed (hclosed : Closed text) (hblank : ∃ c ∈ text, isBlank c = false)
    (rest : List Char) : winner (text ++ '\n' :: rest) = winner text := by
  have hbetter : better (text ++ '\n' :: rest) = better text := by
    funext candidate p
    rw [better, better, longest_append_feed hclosed hblank]
  rw [winner, winner, hbetter]

/-! ### Blanks and quotes -/

theorem longest_eq_zero (h : isBlank c = true ∨ isQuote c = true) (text : List Char) :
    comment.longest (c :: text) = 0 ∧ punctuation.longest (c :: text) = 0 ∧
      number.longest (c :: text) = 0 ∧ word.longest (c :: text) = 0 := by
  obtain ⟨hdigit, hword, hslash, -⟩ := classes_of_isBlank_or_isQuote h
  have hspelling {spelling : List Char} (hmem : c ∈ spelling) :
      isPunctuation spelling = false := by
    rw [Bool.eq_false_iff]
    intro hspelling
    obtain ⟨hblank, hquote⟩ := classes_of_isPunctuation hspelling _ hmem
    rcases h with h | h
    · exact absurd (h.symm.trans hblank) (by decide)
    · exact absurd (h.symm.trans hquote) (by decide)
  have hnumber : run isDigit (c :: text) = 0 := by
    rw [run, List.takeWhile_cons_of_neg (by simp [hdigit])]
    rfl
  refine ⟨?_, ?_, ?_, ?_⟩
  · rw [longest]
    rintro rest ⟨⟩
    exact hslash rfl
  · cases text <;> simp [longest, hspelling]
  · simp [longest, hnumber]
  · simp [longest, hword]

/-- A text that begins with a string without an end is found to do so. -/
theorem closed_of_winner (h : (winner text).1 ≠ .unterminated) : Closed text := by
  rintro c rest rfl hquote
  refine Nat.lt_of_le_of_ne (run_le _ _) fun hopen => h ?_
  obtain ⟨hcomment, hpunctuation, hnumber, hword⟩ := longest_eq_zero (.inr hquote) rest
  have hblank : blank.longest (c :: rest) = 0 := by
    have hc : ¬isBlank c = true := fun hblank =>
      absurd (hquote.symm.trans ((classes_of_isBlank_or_isQuote (.inl hblank)).2.2.2 hblank))
        (by decide)
    show (List.takeWhile isBlank (c :: rest)).length = 0
    rw [List.takeWhile_cons_of_neg hc]
    rfl
  have hstring : string.longest (c :: rest) = 0 := by
    rw [longest, if_pos hquote, hopen]
    exact if_neg (Nat.lt_irrefl _)
  have hunterminated : unterminated.longest (c :: rest) = 1 + rest.length := by
    rw [longest, if_pos hquote, hopen]
  have hpos : 0 < 1 + rest.length := Nat.lt_of_lt_of_le Nat.one_pos (Nat.le_add_right 1 _)
  have hstray : stray.longest (c :: rest) = 1 := rfl
  simp [winner, declared, better, hblank, hcomment, hpunctuation, hnumber, hstring, hword,
    hunterminated, hstray, hpos]

/-- A blank and those that follow it are the first piece. -/
theorem winner_of_isBlank (hc : isBlank c = true) (text : List Char) :
    winner (c :: text) = (.blank, run isBlank (c :: text)) := by
  obtain ⟨hcomment, hpunctuation, hnumber, hword⟩ := longest_eq_zero (.inl hc) text
  have hquote := (classes_of_isBlank_or_isQuote (.inl hc)).2.2.2 hc
  have hblank : blank.longest (c :: text) = run isBlank (c :: text) := rfl
  have hpos : 0 < run isBlank (c :: text) := by
    rw [run, List.takeWhile_cons_of_pos hc]
    exact Nat.succ_pos _
  have hstring : string.longest (c :: text) = 0 := by simp [longest, hquote]
  have hunterminated : unterminated.longest (c :: text) = 0 := by simp [longest, hquote]
  have hstray : stray.longest (c :: text) = 1 := rfl
  simp [winner, declared, better, hblank, hcomment, hpunctuation, hnumber, hstring, hword,
    hunterminated, hstray, hpos, Nat.not_lt.mpr hpos]

end Pattern

/-! ### Pieces one after the other -/

theorem cutPieces_succ_cons (fuel : Nat) (c : Char) (rest : List Char) :
    cutPieces (fuel + 1) (c :: rest) =
      ⟨(Pattern.winner (c :: rest)).1, (c :: rest).take (Pattern.winner (c :: rest)).2⟩ ::
        cutPieces fuel ((c :: rest).drop (Pattern.winner (c :: rest)).2) := rfl

/-- More cuts than there are characters change nothing. -/
theorem cutPieces_eq_pieces {fuel : Nat} {text : List Char} (h : text.length ≤ fuel) :
    cutPieces fuel text = pieces text := by
  -- any two amounts that are enough
  have hsame (fuel fuel' : Nat) : ∀ text : List Char, text.length ≤ fuel → text.length ≤ fuel' →
      cutPieces fuel text = cutPieces fuel' text := by
    induction fuel generalizing fuel' with
    | zero =>
      intro text h _
      rw [List.eq_nil_of_length_eq_zero (Nat.le_zero.mp h)]
      cases fuel' <;> rfl
    | succ fuel ih =>
      intro text h h'
      cases text with
      | nil => cases fuel' <;> rfl
      | cons c rest =>
        cases fuel' with
        | zero => cases h'
        | succ fuel' =>
          have hpos := Pattern.winner_pos (List.cons_ne_nil c rest)
          rw [cutPieces_succ_cons, cutPieces_succ_cons, ih fuel']
          all_goals
            simp only [List.length_drop, List.length_cons] at *
            omega
  exact hsame _ _ text h (Nat.le_refl _)

theorem pieces_eq_cons {text : List Char} (h : text ≠ []) :
    pieces text = ⟨(Pattern.winner text).1, text.take (Pattern.winner text).2⟩ ::
      pieces (text.drop (Pattern.winner text).2) := by
  have hpos := Pattern.winner_pos h
  obtain ⟨c, rest, rfl⟩ := List.exists_cons_of_ne_nil h
  rw [pieces, List.length_cons, cutPieces_succ_cons, cutPieces_eq_pieces]
  simp only [List.length_drop, List.length_cons]
  omega

/-- What is read off the pieces of a text that begins at a place. -/
def readOff {α : Type} (f : PlacedPiece → Option α) (p : Position) (text : List Char) : List α :=
  (placePieces p (pieces text)).filterMap f

section

variable {α : Type} {f : PlacedPiece → Option α}

theorem readOff_nil (f : PlacedPiece → Option α) (p : Position) : readOff f p [] = [] := rfl

theorem readOff_of_ne_nil (p : Position) {text : List Char} (h : text ≠ []) :
    readOff f p text =
      (f ⟨⟨(Pattern.winner text).1, text.take (Pattern.winner text).2⟩, p⟩).toList ++
        readOff f (p.advance (text.take (Pattern.winner text).2))
          (text.drop (Pattern.winner text).2) := by
  rw [readOff, pieces_eq_cons h, placePieces, List.filterMap_cons]
  cases f ⟨⟨(Pattern.winner text).1, text.take (Pattern.winner text).2⟩, p⟩ <;> rfl

/-- Blanks are passed over. -/
theorem readOff_dropWhile (hf : ∀ piece p, piece.pattern = .blank → f ⟨piece, p⟩ = none)
    (p : Position) (text : List Char) :
    readOff f p text =
      readOff f (p.advance (text.takeWhile Pattern.isBlank)) (text.dropWhile Pattern.isBlank) := by
  by_cases hblank : ∃ c rest, text = c :: rest ∧ Pattern.isBlank c = true
  · obtain ⟨c, rest, rfl, hc⟩ := hblank
    have htake : (c :: rest).take (Pattern.run Pattern.isBlank (c :: rest)) =
        (c :: rest).takeWhile Pattern.isBlank :=
      (List.prefix_iff_eq_take.mp (List.takeWhile_prefix _)).symm
    have hdrop : (c :: rest).drop (Pattern.run Pattern.isBlank (c :: rest)) =
        (c :: rest).dropWhile Pattern.isBlank := by
      have hparts := List.take_append_drop (Pattern.run Pattern.isBlank (c :: rest)) (c :: rest)
      rw [htake] at hparts
      exact List.append_cancel_left (hparts.trans List.takeWhile_append_dropWhile.symm)
    rw [readOff_of_ne_nil p (List.cons_ne_nil c rest), Pattern.winner_of_isBlank hc, hf _ _ rfl]
    dsimp only
    rw [htake, hdrop]
    rfl
  · have hnone : text.takeWhile Pattern.isBlank = [] ∧ text.dropWhile Pattern.isBlank = text := by
      cases text with
      | nil => exact ⟨rfl, rfl⟩
      | cons c rest =>
        have hc : ¬Pattern.isBlank c = true := fun hc => hblank ⟨c, rest, rfl, hc⟩
        exact ⟨List.takeWhile_cons_of_neg hc, List.dropWhile_cons_of_neg hc⟩
    rw [hnone.1, hnone.2, Position.advance_nil]

/-- **A line feed is a safe place to cut.** What is read off a text with a line feed in it is read
off the two parts, if every string in the first part is closed. -/
theorem readOff_append_feed (hf : ∀ piece p, piece.pattern = .blank → f ⟨piece, p⟩ = none)
    (text rest : List Char) (hclosed : ∀ piece ∈ pieces text, piece.pattern ≠ .unterminated)
    (p : Position) :
    readOff f p (text ++ '\n' :: rest) =
      readOff f p text ++ readOff f (p.advance (text ++ ['\n'])) rest := by
  by_cases hblank : ∃ c ∈ text, Pattern.isBlank c = false
  · have hne : text ≠ [] := by
      obtain ⟨c, hc, -⟩ := hblank
      exact List.ne_nil_of_mem hc
    have hpos := Pattern.winner_pos hne
    have hle := Pattern.winner_le text
    rw [pieces_eq_cons hne, List.forall_mem_cons] at hclosed
    have hwinner := Pattern.winner_append_feed (Pattern.closed_of_winner hclosed.1) hblank rest
    have hcut : text.take (Pattern.winner text).2 ++ (text.drop (Pattern.winner text).2 ++ ['\n']) =
        text ++ ['\n'] := by
      rw [← List.append_assoc, List.take_append_drop]
    rw [readOff_of_ne_nil p hne, readOff_of_ne_nil p (by simp), hwinner,
      List.take_append_of_le_length hle, List.drop_append_of_le_length hle,
      readOff_append_feed hf _ rest hclosed.2, ← Position.advance_append, hcut, List.append_assoc]
  · have hall : ∀ c ∈ text, Pattern.isBlank c = true := by
      intro c hc
      rw [← Bool.not_eq_false]
      exact fun hne => hblank ⟨c, hc, hne⟩
    have hfeed : Pattern.isBlank '\n' = true := by decide
    have hnil : text.dropWhile Pattern.isBlank = [] := by
      rw [← List.append_nil text, List.dropWhile_append_of_pos hall]
      rfl
    rw [readOff_dropWhile hf p text, readOff_dropWhile hf p (text ++ '\n' :: rest),
      readOff_dropWhile hf (p.advance (text ++ ['\n'])) rest, List.takeWhile_append_of_pos hall,
      List.dropWhile_append_of_pos hall, List.takeWhile_cons_of_pos hfeed,
      List.dropWhile_cons_of_pos hfeed, hnil, readOff_nil,
      List.nil_append, ← Position.advance_append, List.append_assoc]
    rfl
termination_by text.length
decreasing_by
  simp only [List.length_drop]
  omega

end

/-! ### Two texts -/

/-- What is a place in a text by itself, when the text begins at the origin. -/
def Position.movedBy (p origin : Position) : Position :=
  ⟨p.offset + origin.offset, p.feeds + origin.feeds⟩

/-- The token in a text that begins at the origin. -/
def Token.movedBy (t : Token) (origin : Position) : Token :=
  { t with line := t.line + origin.feeds, offset := t.offset + origin.offset }

/-- The mistake in a text that begins at the origin. -/
def LexicalMistake.movedBy (m : LexicalMistake) (origin : Position) : LexicalMistake :=
  { m with line := m.line + origin.feeds, offset := m.offset + origin.offset }

/-- Where a text begins that comes after another and a line feed. -/
def Position.behind (text : String) : Position := start.advance (text.toList ++ ['\n'])

theorem Position.advance_movedBy (p origin : Position) (text : List Char) :
    (p.movedBy origin).advance text = (p.advance text).movedBy origin := by
  simp only [advance, movedBy, Position.mk.injEq]
  omega

theorem PlacedPiece.token?_movedBy (piece : Piece) (p origin : Position) :
    token? ⟨piece, p.movedBy origin⟩ = (token? ⟨piece, p⟩).map (Token.movedBy · origin) := by
  have hline (q : Position) : ((q.movedBy origin).line : Int) = q.line + origin.feeds := by
    simp only [Position.line, Position.movedBy]
    omega
  rw [token?, token?]
  dsimp only
  rw [Position.advance_movedBy, hline]
  cases piece.pattern
  case punctuation => cases punctuation.lookup (String.ofList piece.text) <;> rfl
  all_goals rfl

theorem PlacedPiece.mistake?_movedBy (piece : Piece) (p origin : Position) :
    mistake? ⟨piece, p.movedBy origin⟩ =
      (mistake? ⟨piece, p⟩).map (LexicalMistake.movedBy · origin) := by
  have hline (q : Position) : (q.movedBy origin).line = q.line + origin.feeds := by
    simp only [Position.line, Position.movedBy]
    omega
  rw [mistake?, mistake?]
  dsimp only
  rw [Position.advance_movedBy, hline, hline]
  cases piece.pattern <;> rfl

/-- What is read off a text moves along with it. -/
theorem readOff_movedBy {α : Type} {f : PlacedPiece → Option α} {g : α → Position → α}
    (origin : Position)
    (hf : ∀ piece p, f ⟨piece, p.movedBy origin⟩ = (f ⟨piece, p⟩).map (g · origin))
    (p : Position) (text : List Char) :
    readOff f (p.movedBy origin) text = (readOff f p text).map (g · origin) := by
  rw [readOff, readOff]
  induction pieces text generalizing p with
  | nil => rfl
  | cons piece rest ih =>
    rw [placePieces, placePieces, List.filterMap_cons, List.filterMap_cons, hf,
      Position.advance_movedBy, ih]
    cases f ⟨piece, p⟩ <;> rfl

/-- What is read off two texts with a line feed between them. -/
theorem readOff_two {α : Type} {f : PlacedPiece → Option α} {g : α → Position → α}
    (hf : ∀ piece p origin, f ⟨piece, p.movedBy origin⟩ = (f ⟨piece, p⟩).map (g · origin))
    (hblank : ∀ piece p, piece.pattern = .blank → f ⟨piece, p⟩ = none) {first : String}
    (hfirst : (scan first).mistakes = []) (second : String) :
    readOff f .start (first ++ "\n" ++ second).toList = readOff f .start first.toList ++
      (readOff f .start second.toList).map (g · (Position.behind first)) := by
  have hclosed : ∀ piece ∈ pieces first.toList, piece.pattern ≠ .unterminated := by
    intro piece hpiece hpattern
    rw [← map_toPiece_placePieces .start (pieces first.toList)] at hpiece
    obtain ⟨placed, hplaced, rfl⟩ := List.mem_map.mp hpiece
    have hnone := List.filterMap_eq_nil_iff.mp hfirst placed hplaced
    rw [PlacedPiece.mistake?, hpattern] at hnone
    cases hnone
  have htext : (first ++ "\n" ++ second).toList = first.toList ++ '\n' :: second.toList := by
    rw [String.toList_append, String.toList_append, List.append_assoc]
    rfl
  have horigin : Position.behind first = Position.start.movedBy (Position.behind first) := by
    simp only [Position.movedBy, Position.start, Nat.zero_add]
  rw [htext, readOff_append_feed hblank _ _ hclosed]
  refine congrArg _ ?_
  show readOff f (Position.behind first) _ = _
  rw [horigin, readOff_movedBy _ (fun piece p => hf piece p _), ← horigin]

/-- **The tokens of two texts** with a line feed between them are those of the first and those of the
second, which have moved. -/
theorem tokens_append_feed {first : String} (hfirst : (scan first).mistakes = [])
    (second : String) : (scan (first ++ "\n" ++ second)).tokens =
      (scan first).tokens ++ (scan second).tokens.map (·.movedBy (.behind first)) :=
  readOff_two PlacedPiece.token?_movedBy
    (fun piece p h => by rw [PlacedPiece.token?, h]) hfirst second

/-- The mistakes in two texts are those in the second, if there is none in the first. -/
theorem mistakes_append_feed {first : String} (hfirst : (scan first).mistakes = [])
    (second : String) : (scan (first ++ "\n" ++ second)).mistakes =
      (scan second).mistakes.map (·.movedBy (.behind first)) := by
  have hmistakes := readOff_two PlacedPiece.mistake?_movedBy
    (fun piece p h => by rw [PlacedPiece.mistake?, h]) hfirst second
  rwa [show readOff PlacedPiece.mistake? .start first.toList = [] from hfirst] at hmistakes

end LoxInterpreter
