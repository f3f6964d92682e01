import LoxInterpreter.Proofs.Scan.Language
import LoxInterpreter.Proofs.Scan.Split

/-!
# Other layouts of a text

The lexemes of a text may be written anew with other space between them (`LaidOut`): between each
two stands a *separator*, which begins with a blank and goes on with blanks and comments. Scanning
finds the lexemes again, whatever they are: a word that wins as a token in some text also wins in
front of a blank (`Pattern.Wins.before_blank`). So the tokens are the same but for their places
(`scan_of_laidOut`).
-/

namespace LoxInterpreter

open Computability

namespace Pattern

/-- The pieces of these patterns become tokens. -/
def makesToken : Pattern → Bool
  | punctuation | number | string | word => true
  | blank | comment | unterminated | stray => false

variable {q r : Pattern} {c : Char} {w v text rest : List Char}

/-! ### Words in front of a blank -/

theorem not_isQuote_of_isBlank (hc : isBlank c = true) : isQuote c = false :=
  (classes_of_isBlank_or_isQuote (.inl hc)).2.2.2 hc

/-- Operators, numbers, names and reserved words have neither blanks nor quotes in them. -/
theorem classes_of_mem_language (hq : q = punctuation ∨ q = number ∨ q = word)
    (hw : w ∈ q.language) : ∀ c ∈ w, isBlank c = false ∧ isQuote c = false := by
  have hclass {c : Char} (h : isDigit c = true ∨ isWordStart c = true) :
      isBlank c = false ∧ isQuote c = false := by
    by_contra hno
    have hc : isBlank c = true ∨ isQuote c = true := by
      cases hblank : isBlank c <;> simp_all
    obtain ⟨hdigit, hstart, -, -⟩ := classes_of_isBlank_or_isQuote hc
    rw [hdigit, hstart] at h
    exact h.elim Bool.false_ne_true Bool.false_ne_true
  rcases hq with rfl | rfl | rfl
  · exact classes_of_isPunctuation (isPunctuation_iff.mpr hw)
  · obtain ⟨whole, hwhole, tail, htail, rfl⟩ := Language.mem_mul.mp hw
    have hdigits {ds : List Char} (h : ds ∈ oneOf isDigit * (oneOf isDigit)∗) :
        ∀ c ∈ ds, isBlank c = false ∧ isQuote c = false :=
      fun c hc => hclass (.inl ((mem_plus_oneOf.mp h).2 c hc))
    refine List.forall_mem_append.mpr ⟨hdigits hwhole, ?_⟩
    rcases htail with rfl | htail
    · exact List.forall_mem_nil _
    · obtain ⟨d, ds, hd, hds, rfl⟩ := mem_oneOf_mul.mp htail
      rw [eq_of_beq hd]
      exact List.forall_mem_cons.mpr ⟨by decide, hdigits hds⟩
  · obtain ⟨d, ds, hd, hds, rfl⟩ := mem_oneOf_mul.mp hw
    refine List.forall_mem_cons.mpr ⟨hclass (.inr hd), fun c hc => hclass ?_⟩
    exact (Bool.or_eq_true_iff.mp (mem_kstar_oneOf.mp hds c hc)).symm

/-- A match that goes on over a blank is more blanks, a comment, or a string: what comes before the
blank is then blanks, a comment, or a string without an end. -/
theorem mem_of_append_blank (hc : isBlank c = true) (hne : w ≠ [])
    (h : w ++ c :: rest ∈ r.language) :
    w ∈ blank.language ∨ w ∈ comment.language ∨ w ∈ unterminated.language := by
  have hquote := not_isQuote_of_isBlank hc
  have hmem : c ∈ w ++ c :: rest := List.mem_append_right _ List.mem_cons_self
  have hclean (hr : r = punctuation ∨ r = number ∨ r = word) : False :=
    absurd (hc.symm.trans (classes_of_mem_language hr h c hmem).1) (by decide)
  obtain ⟨first, w, rfl⟩ := List.exists_cons_of_ne_nil hne
  cases r with
  | punctuation => exact (hclean (.inl rfl)).elim
  | number => exact (hclean (.inr (.inl rfl))).elim
  | word => exact (hclean (.inr (.inr rfl))).elim
  | blank =>
    have hall := (mem_plus_oneOf.mp h).2
    exact .inl (mem_plus_oneOf.mpr ⟨hne, fun d hd => hall d (List.mem_append_left _ hd)⟩)
  | comment =>
    obtain ⟨d, v, hd, hv, heq⟩ := mem_oneOf_mul.mp h
    obtain ⟨rfl, rfl⟩ := List.cons.inj heq
    obtain ⟨e, words, he, hwords, heq⟩ := mem_oneOf_mul.mp hv
    cases w with
    | nil =>
      -- a slash alone is no beginning of a comment
      obtain ⟨rfl, -⟩ := List.cons.inj heq
      rw [eq_of_beq he] at hc
      exact absurd hc (by decide)
    | cons second w =>
      obtain ⟨rfl, rfl⟩ := List.cons.inj heq
      refine .inr (.inl (mem_oneOf_mul.mpr ⟨_, _, hd, mem_oneOf_mul.mpr ⟨_, w, he, ?_, rfl⟩, rfl⟩))
      exact mem_kstar_oneOf.mpr fun d hd =>
        mem_kstar_oneOf.mp hwords d (List.mem_append_left _ hd)
  | string =>
    obtain ⟨d, v, hd, hv, heq⟩ := mem_oneOf_mul.mp h
    obtain ⟨rfl, rfl⟩ := List.cons.inj heq
    obtain ⟨inside, hinside, _, ⟨close, hclose, rfl⟩, heq⟩ := Language.mem_mul.mp hv
    refine .inr (.inr (mem_oneOf_mul.mpr ⟨_, w, hd, mem_kstar_oneOf.mpr fun e he => ?_, rfl⟩))
    -- the quote that closes the string is behind the blank
    rcases List.append_eq_append_iff.mp heq with ⟨back, hback, hrest⟩ | ⟨more, rfl, -⟩
    · cases back with
      | nil =>
        obtain ⟨rfl, -⟩ := List.cons.inj hrest
        exact absurd (hclose.symm.trans hquote) (by decide)
      | cons b back => cases (List.append_eq_nil_iff.mp (List.cons.inj hrest).2.symm).2
    · exact mem_kstar_oneOf.mp hinside e (List.mem_append_left _ he)
  | unterminated =>
    obtain ⟨d, v, hd, hv, heq⟩ := mem_oneOf_mul.mp h
    obtain ⟨rfl, rfl⟩ := List.cons.inj heq
    refine .inr (.inr (mem_oneOf_mul.mpr ⟨_, w, hd, mem_kstar_oneOf.mpr fun e he => ?_, rfl⟩))
    exact mem_kstar_oneOf.mp hv e (List.mem_append_left _ he)
  | stray =>
    obtain ⟨d, -, heq⟩ := h
    cases (List.append_eq_nil_iff.mp (List.cons.inj heq).2).2

/-- A quote that nothing closes is no token. -/
theorem not_mem_unterminated (hq : q.makesToken = true) (hw : w ∈ q.language) :
    w ∉ unterminated.language := by
  intro hopen
  obtain ⟨c, v, hc, hv, rfl⟩ := mem_oneOf_mul.mp hopen
  have hclean (hq : q = punctuation ∨ q = number ∨ q = word) : False :=
    absurd (hc.symm.trans (classes_of_mem_language hq hw c List.mem_cons_self).2) (by decide)
  cases q with
  | blank | comment | unterminated | stray => cases hq
  | punctuation => exact hclean (.inl rfl)
  | number => exact hclean (.inr (.inl rfl))
  | word => exact hclean (.inr (.inr rfl))
  | string =>
    obtain ⟨d, u, hd, hu, heq⟩ := mem_oneOf_mul.mp hw
    obtain ⟨rfl, rfl⟩ := List.cons.inj heq
    obtain ⟨inside, -, _, ⟨close, hclose, rfl⟩, rfl⟩ := Language.mem_mul.mp hu
    have hnot := mem_kstar_oneOf.mp hv close (List.mem_append_right _ (List.mem_singleton_self _))
    rw [hclose] at hnot
    cases hnot

/-- **Maximal munch in front of a blank.** A word that wins as a token in some text wins where no
text or a blank follows it. -/
theorem Wins.before_blank (h : q.Wins w text) (hq : q.makesToken = true)
    (hrest : ∀ c ∈ rest.head?, isBlank c = true) : q.Wins w (w ++ rest) where
  front := List.prefix_append _ _
  mem_language := h.mem_language
  first := h.first
  longest r v hv hprefix := by
    by_contra hlonger
    have hshort := Nat.le_of_lt (Nat.lt_of_not_le hlonger)
    obtain ⟨more, rfl⟩ := List.prefix_of_prefix_length_le (List.prefix_append _ _) hprefix hshort
    cases more with
    | nil => exact hlonger (Nat.le_of_eq (congrArg _ (List.append_nil w)))
    | cons c more =>
      have hmore := (List.prefix_append_right_inj w).mp hprefix
      obtain ⟨rest, rfl⟩ := hmore
      have hne := ne_nil_of_mem_language h.mem_language
      -- blanks and comments would have come before the token; it is no string without an end
      rcases mem_of_append_blank (hrest c rfl) hne hv with hblank | hcomment | hopen
      · have hfirst := h.first blank hblank
        cases q <;> revert hq hfirst <;> decide
      · have hfirst := h.first comment hcomment
        cases q <;> revert hq hfirst <;> decide
      · exact not_mem_unterminated hq h.mem_language hopen

/-- Who wins is who is found to win. -/
theorem Wins.winner_eq (h : q.Wins w text) : winner text = (q, w.length) := by
  have hne : text ≠ [] := by
    rintro rfl
    exact ne_nil_of_mem_language h.mem_language (List.prefix_nil.mp h.front)
  obtain ⟨hpattern, htake⟩ := (wins_winner hne).unique h
  refine Prod.ext hpattern ?_
  rw [← htake, List.length_take_of_le (winner_le text)]

/-- Two slashes and what follows them, up to the line feed, are a piece. -/
theorem winner_of_comment {words : List Char} (hwords : ∀ c ∈ words, isInline c = true)
    (rest : List Char) :
    winner ('/' :: '/' :: words ++ '\n' :: rest) = (comment, ('/' :: '/' :: words).length) := by
  have hcomment : comment.longest ('/' :: '/' :: words ++ '\n' :: rest) = words.length + 2 := by
    show 2 + run isInline (words ++ '\n' :: rest) = _
    rw [run_append_of_forall hwords, run_cons_of_neg (by decide), Nat.add_zero, Nat.add_comm]
  have hblank : blank.longest ('/' :: '/' :: words ++ '\n' :: rest) = 0 := rfl
  have hpunctuation : punctuation.longest ('/' :: '/' :: words ++ '\n' :: rest) = 1 := rfl
  have hnumber : number.longest ('/' :: '/' :: words ++ '\n' :: rest) = 0 := rfl
  have hstring : string.longest ('/' :: '/' :: words ++ '\n' :: rest) = 0 := rfl
  have hword : word.longest ('/' :: '/' :: words ++ '\n' :: rest) = 0 := rfl
  have hunterminated : unterminated.longest ('/' :: '/' :: words ++ '\n' :: rest) = 0 := rfl
  have hstray : stray.longest ('/' :: '/' :: words ++ '\n' :: rest) = 1 := rfl
  generalize '/' :: '/' :: words ++ '\n' :: rest = text at *
  simp [winner, declared, better, hcomment, hblank, hpunctuation, hnumber, hstring, hword,
    hunterminated, hstray]

end Pattern

/-! ### Layouts -/

/-- Blanks and comments in any order. -/
inductive Spacing : List Char → Prop where
  | nil : Spacing []
  | blank {c : Char} {rest : List Char} :
    Pattern.isBlank c = true → Spacing rest → Spacing (c :: rest)
  | comment {words rest : List Char} :
    (∀ c ∈ words, Pattern.isInline c = true) → Spacing rest →
    Spacing ('/' :: '/' :: words ++ '\n' :: rest)

/-- **What may separate two lexemes**: blanks and comments, of which the first is a blank. -/
inductive Separator : List Char → Prop where
  | mk {c : Char} {rest : List Char} :
    Pattern.isBlank c = true → Spacing rest → Separator (c :: rest)

/-- Lexemes with a separator between each two, and perhaps one at the end. -/
inductive Spread : List String → List Char → Prop where
  | nil {margin : List Char} : margin = [] ∨ Separator margin → Spread [] margin
  | last {lexeme : String} {margin : List Char} : margin = [] ∨ Separator margin →
    Spread [lexeme] (lexeme.toList ++ margin)
  | cons {lexeme next : String} {lexemes : List String} {separator text : List Char} :
    Separator separator → Spread (next :: lexemes) text →
    Spread (lexeme :: next :: lexemes) (lexeme.toList ++ (separator ++ text))

/-- **A layout of the lexemes**: in order, with a separator between each two, and perhaps one before
the first and one behind the last. -/
def LaidOut (lexemes : List String) (text : String) : Prop :=
  ∃ margin rest, (margin = [] ∨ Separator margin) ∧ Spread lexemes rest ∧
    text.toList = margin ++ rest

theorem spread_intercalate {separator : List Char} (h : Separator separator)
    (lexemes : List String) :
    Spread lexemes (separator.intercalate (lexemes.map String.toList)) := by
  induction lexemes with
  | nil => exact .nil (.inl rfl)
  | cons lexeme rest ih =>
    cases rest with
    | nil =>
      rw [List.map_cons, List.map_nil, List.intercalate_singleton, ← List.append_nil lexeme.toList]
      exact .last (.inl rfl)
    | cons next rest =>
      rw [List.map_cons, List.map_cons, List.intercalate_cons_cons, List.append_assoc]
      exact .cons h ih

/-- One separator will do everywhere. -/
theorem laidOut_intercalate {separator : List Char} (h : Separator separator)
    (lexemes : List String) :
    LaidOut lexemes (String.ofList (separator.intercalate (lexemes.map String.toList))) :=
  ⟨[], _, .inl rfl, spread_intercalate h lexemes, String.toList_ofList⟩

/-- The token as it is found elsewhere. -/
structure Token.Elsewhere (t t' : Token) : Prop where
  kind : t'.kind = t.kind
  lexeme : t'.lexeme = t.lexeme
  literal : t'.literal = t.literal

section

variable {α : Type} {f : PlacedPiece → Option α} {q : Pattern} {c : Char} {w rest s : List Char}

/-- The winner is read, and then what follows it. -/
theorem readOff_append (h : Pattern.winner (w ++ rest) = (q, w.length)) (hne : w ≠ [])
    (p : Position) :
    readOff f p (w ++ rest) = (f ⟨⟨q, w⟩, p⟩).toList ++ readOff f (p.advance w) rest := by
  rw [readOff_of_ne_nil p (List.append_ne_nil_of_left_ne_nil hne rest), h]
  dsimp only
  rw [List.take_left, List.drop_left]

/-- A blank is passed over, whatever follows it. -/
theorem readOff_cons_blank (hf : ∀ piece p, piece.pattern = .blank → f ⟨piece, p⟩ = none)
    (hc : Pattern.isBlank c = true) (p : Position) (text : List Char) :
    readOff f p (c :: text) = readOff f (p.advance [c]) text := by
  rw [readOff_dropWhile hf p (c :: text), readOff_dropWhile hf (p.advance [c]) text,
    List.takeWhile_cons_of_pos hc, List.dropWhile_cons_of_pos hc, ← Position.advance_append]
  rfl

/-- Blanks and comments are passed over. -/
theorem readOff_spacing
    (hf : ∀ piece p, piece.pattern = .blank ∨ piece.pattern = .comment → f ⟨piece, p⟩ = none)
    (hs : Spacing s) (p : Position) (text : List Char) :
    readOff f p (s ++ text) = readOff f (p.advance s) text := by
  have hblank (piece : Piece) (p : Position) (h : piece.pattern = .blank) : f ⟨piece, p⟩ = none :=
    hf piece p (.inl h)
  induction hs generalizing p with
  | nil => rw [List.nil_append, Position.advance_nil]
  | @blank c rest hc _ ih =>
    rw [List.cons_append, readOff_cons_blank hblank hc, ih, ← Position.advance_append]
    rfl
  | @comment words rest hwords _ ih =>
    rw [List.append_assoc]
    show readOff f p ('/' :: '/' :: words ++ '\n' :: (rest ++ text)) = _
    rw [readOff_append (Pattern.winner_of_comment hwords _) (List.cons_ne_nil _ _),
      hf _ _ (.inr rfl), readOff_cons_blank hblank (by decide), ih, ← Position.advance_append,
      ← Position.advance_append, Option.toList_none, List.nil_append]
    rfl

theorem readOff_margin
    (hf : ∀ piece p, piece.pattern = .blank ∨ piece.pattern = .comment → f ⟨piece, p⟩ = none)
    (hs : s = [] ∨ Separator s) (p : Position) (text : List Char) :
    readOff f p (s ++ text) = readOff f (p.advance s) text := by
  refine readOff_spacing hf ?_ p text
  rcases hs with rfl | ⟨hc, hspacing⟩
  · exact .nil
  · exact .blank hc hspacing

/-- A margin begins with a blank if with anything. -/
theorem isBlank_of_margin (hs : s = [] ∨ Separator s) :
    ∀ c ∈ s.head?, Pattern.isBlank c = true := by
  rcases hs with rfl | ⟨hc, -⟩
  · exact fun c h => absurd h (Option.not_mem_none c)
  · exact fun d h => Option.some.inj h ▸ hc

end

/-! ### Tokens of a layout -/

/-- What wins somewhere in a text, piece by piece. -/
theorem Cut.wins {text : List Char} {ps : List Piece} (h : Cut text ps) :
    ∀ piece ∈ ps, ∃ rest, piece.pattern.Wins piece.text (piece.text ++ rest) := by
  induction h with
  | nil => exact List.forall_mem_nil _
  | cons hwins _ ih => exact List.forall_mem_cons.mpr ⟨⟨_, hwins⟩, ih⟩

/-- The token is that of a piece that wins in some text. -/
def Token.Found (t : Token) : Prop :=
  ∃ piece p text, PlacedPiece.token? ⟨piece, p⟩ = some t ∧ piece.pattern.Wins piece.text text

theorem found_of_mem_tokens {text : String} {t : Token} (h : t ∈ (scan text).tokens) : t.Found := by
  obtain ⟨placed, hplaced, ht⟩ := List.mem_filterMap.mp h
  have hpiece := List.mem_map_of_mem (f := PlacedPiece.toPiece) hplaced
  rw [map_toPiece_placePieces] at hpiece
  obtain ⟨rest, hwins⟩ := (cut_iff.mpr rfl).wins _ hpiece
  exact ⟨placed.toPiece, placed.start, _, ht, hwins⟩

/-- A piece that is a token somewhere is that token elsewhere. -/
theorem PlacedPiece.token?_elsewhere {piece : Piece} {p : Position} {t : Token}
    (h : token? ⟨piece, p⟩ = some t) :
    piece.pattern.makesToken = true ∧ t.lexeme = String.ofList piece.text ∧
      ∀ p', mistake? ⟨piece, p'⟩ = none ∧ ∃ t', token? ⟨piece, p'⟩ = some t' ∧ t.Elsewhere t' := by
  obtain ⟨pattern, text⟩ := piece
  cases pattern with
  | blank | comment | unterminated | stray => cases h
  | number | string | word =>
    cases h
    exact ⟨rfl, rfl, fun p' => ⟨rfl, _, rfl, rfl, rfl, rfl⟩⟩
  | punctuation =>
    obtain ⟨kind, hkind, rfl⟩ := Option.map_eq_some_iff.mp h
    exact ⟨rfl, rfl, fun p' => ⟨rfl, _, Option.map_eq_some_iff.mpr ⟨kind, hkind, rfl⟩,
      rfl, rfl, rfl⟩⟩

/-- A lexeme in front of a blank, or at the end, is read as its token. -/
theorem Token.Found.readOff {t : Token} (h : t.Found) {rest : List Char}
    (hrest : ∀ c ∈ rest.head?, Pattern.isBlank c = true) (p : Position) :
    (∃ t', t.Elsewhere t' ∧
      readOff PlacedPiece.token? p (t.lexeme.toList ++ rest) =
        t' :: readOff PlacedPiece.token? (p.advance t.lexeme.toList) rest) ∧
    readOff PlacedPiece.mistake? p (t.lexeme.toList ++ rest) =
      readOff PlacedPiece.mistake? (p.advance t.lexeme.toList) rest := by
  obtain ⟨⟨q, w⟩, p₀, text, ht, hwins⟩ := h
  obtain ⟨hq, hlexeme, helsewhere⟩ := PlacedPiece.token?_elsewhere ht
  obtain ⟨hmistake, t', ht', hsame⟩ := helsewhere p
  have hwinner := (hwins.before_blank hq hrest).winner_eq
  have hne := Pattern.ne_nil_of_mem_language hwins.mem_language
  rw [hlexeme, String.toList_ofList, readOff_append hwinner hne, readOff_append hwinner hne, ht',
    hmistake]
  exact ⟨⟨t', hsame, rfl⟩, rfl⟩

/-- What is read where there are only margins. -/
theorem readOff_eq_nil {α : Type} {f : PlacedPiece → Option α}
    (hf : ∀ piece p, piece.pattern = .blank ∨ piece.pattern = .comment → f ⟨piece, p⟩ = none)
    {margin : List Char} (hmargin : margin = [] ∨ Separator margin) (p : Position) :
    readOff f p margin = [] := by
  rw [← List.append_nil margin, readOff_margin hf hmargin, readOff_nil]

theorem PlacedPiece.token?_of_space (piece : Piece) (p : Position)
    (h : piece.pattern = .blank ∨ piece.pattern = .comment) : token? ⟨piece, p⟩ = none := by
  rcases h with h | h <;> rw [token?, h]

theorem PlacedPiece.mistake?_of_space (piece : Piece) (p : Position)
    (h : piece.pattern = .blank ∨ piece.pattern = .comment) : mistake? ⟨piece, p⟩ = none := by
  rcases h with h | h <;> rw [mistake?, h]

/-- Lexemes that are spread out are read as their tokens, and nothing else is read. -/
theorem readOff_spread {ts : List Token} (h : ∀ t ∈ ts, t.Found) {text : List Char}
    (hs : Spread (ts.map Token.lexeme) text) (p : Position) :
    List.Forall₂ Token.Elsewhere ts (readOff PlacedPiece.token? p text) ∧
      readOff PlacedPiece.mistake? p text = [] := by
  induction ts generalizing text p with
  | nil =>
    cases hs with
    | nil hmargin =>
      rw [readOff_eq_nil PlacedPiece.token?_of_space hmargin]
      exact ⟨.nil, readOff_eq_nil PlacedPiece.mistake?_of_space hmargin p⟩
  | cons t ts ih =>
    obtain ⟨ht, hts⟩ := List.forall_mem_cons.mp h
    cases ts with
    | nil =>
      cases hs with
      | last hmargin =>
        obtain ⟨⟨t', hsame, htoken⟩, hmistake⟩ := ht.readOff (isBlank_of_margin hmargin) p
        rw [htoken, hmistake, readOff_eq_nil PlacedPiece.token?_of_space hmargin]
        exact ⟨.cons hsame .nil, readOff_eq_nil PlacedPiece.mistake?_of_space hmargin _⟩
    | cons next ts =>
      cases hs with
      | @cons _ _ _ separator text hseparator hspread =>
        have hblank : ∀ c ∈ (separator ++ text).head?, Pattern.isBlank c = true := by
          obtain ⟨hc, -⟩ := hseparator
          exact fun d hd => Option.some.inj hd ▸ hc
        obtain ⟨⟨t', hsame, htoken⟩, hmistake⟩ := ht.readOff hblank p
        rw [htoken, hmistake, readOff_margin PlacedPiece.token?_of_space (.inr hseparator),
          readOff_margin PlacedPiece.mistake?_of_space (.inr hseparator)]
        obtain ⟨htokens, hmistakes⟩ := ih hts hspread ((p.advance _).advance separator)
        exact ⟨.cons hsame htokens, hmistakes⟩

/-- **Scanning does not depend on the layout.** The lexemes of a text, laid out anew, scan without a
mistake to the same tokens elsewhere. -/
theorem scan_of_laidOut {text laid : String}
    (h : LaidOut ((scan text).tokens.map Token.lexeme) laid) :
    List.Forall₂ Token.Elsewhere (scan text).tokens (scan laid).tokens ∧
      (scan laid).mistakes = [] := by
  obtain ⟨margin, rest, hmargin, hspread, hlaid⟩ := h
  have htokens : (scan laid).tokens = readOff PlacedPiece.token? .start laid.toList := rfl
  have hmistakes : (scan laid).mistakes = readOff PlacedPiece.mistake? .start laid.toList := rfl
  rw [htokens, hmistakes, hlaid, readOff_margin PlacedPiece.token?_of_space hmargin,
    readOff_margin PlacedPiece.mistake?_of_space hmargin]
  exact readOff_spread (fun t => found_of_mem_tokens) hspread _

end LoxInterpreter
