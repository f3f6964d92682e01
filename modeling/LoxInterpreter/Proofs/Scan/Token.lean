import LoxInterpreter.Scan

/-!
# The tokens of a text

What later passes rely on about the tokens of a scan.

* Tokens come in the order of the text: their offsets increase (`pairwise_offset_tokens`). Hence a
  token is known by its offset.
* A token is spelled as its kind says (`Token.Spelled`): a name is no reserved word
  (`Token.Spelled.lookup_keywords`), and the reserved words `this` and `super` have their own
  spelling.
-/

namespace LoxInterpreter

/-! ### Order -/

/-- No piece is empty. -/
theorem ne_nil_of_mem_cutPieces {fuel : Nat} {text : List Char} {piece : Piece}
    (h : piece ∈ cutPieces fuel text) : piece.text ≠ [] := by
  induction fuel generalizing text with
  | zero => simp [cutPieces] at h
  | succ fuel ih =>
    cases text with
    | nil => simp [cutPieces] at h
    | cons c rest =>
      simp only [cutPieces, List.mem_cons] at h
      rcases h with rfl | h
      · have hpos := Pattern.winner_pos (List.cons_ne_nil c rest)
        intro hnil
        rw [List.take_eq_nil_iff] at hnil
        rcases hnil with hzero | hnil
        · omega
        · cases hnil
      · exact ih h

/-- Pieces are placed at or behind the position where placing begins. -/
theorem le_offset_of_mem_placePieces {p : Position} {ps : List Piece} {placed : PlacedPiece}
    (h : placed ∈ placePieces p ps) : p.offset ≤ placed.start.offset := by
  induction ps generalizing p with
  | nil => cases h
  | cons piece rest ih =>
    rcases List.mem_cons.mp h with rfl | h
    · exact Nat.le_refl _
    · exact Nat.le_trans (Nat.le_add_right _ _) (ih h)

/-- Pieces that are not empty stand one behind the other. -/
theorem pairwise_placePieces (p : Position) {ps : List Piece} (h : ∀ piece ∈ ps, piece.text ≠ []) :
    (placePieces p ps).Pairwise fun a b => a.start.offset < b.start.offset := by
  induction ps generalizing p with
  | nil => exact .nil
  | cons piece rest ih =>
    refine .cons (fun b hb => ?_) (ih _ fun q hq => h q (List.mem_cons_of_mem _ hq))
    have hpos := List.length_pos_iff.mpr (h piece List.mem_cons_self)
    have hle := le_offset_of_mem_placePieces hb
    simp only [Position.advance] at hle
    show p.offset < b.start.offset
    omega

/-- A token is found where its piece is. -/
theorem PlacedPiece.offset_token? {p : PlacedPiece} {t : Token} (h : p.token? = some t) :
    t.offset = p.start.offset := by
  rw [PlacedPiece.token?] at h
  split at h
  · obtain ⟨kind, -, rfl⟩ := Option.map_eq_some_iff.mp h
    rfl
  all_goals cases h
  all_goals rfl

/-- **Order.** The tokens of a text come in the order of their offsets. -/
theorem pairwise_offset_tokens (text : String) :
    (scan text).tokens.Pairwise fun a b => a.offset < b.offset := by
  have hpieces : (placePieces .start (pieces text.toList)).Pairwise
      fun a b => a.start.offset < b.start.offset :=
    pairwise_placePieces .start fun _ => ne_nil_of_mem_cutPieces
  refine List.Pairwise.filterMap _ (fun a b hab t ht u hu => ?_) hpieces
  rw [PlacedPiece.offset_token? ht, PlacedPiece.offset_token? hu]
  exact hab

/-! ### Spelling -/

/-- The spelling and the kind of a token agree. -/
inductive Token.Spelled (t : Token) : Prop where
  | punctuation : punctuation.lookup t.lexeme = some t.kind → Token.Spelled t
  | number : t.kind = .number → Token.Spelled t
  | string : t.kind = .string → Token.Spelled t
  | word : t.kind = (keywords.lookup t.lexeme).getD .identifier → Token.Spelled t

/-- **Spelling.** Every token of a text is spelled as its kind says. -/
theorem spelled_of_mem_tokens {text : String} {t : Token} (h : t ∈ (scan text).tokens) :
    t.Spelled := by
  obtain ⟨p, -, h⟩ := List.mem_filterMap.mp h
  rw [PlacedPiece.token?] at h
  split at h
  · obtain ⟨kind, hkind, rfl⟩ := Option.map_eq_some_iff.mp h
    exact .punctuation hkind
  all_goals cases h
  · exact .number rfl
  · exact .string rfl
  · exact .word rfl

theorem mem_of_lookup_eq_some {table : List (String × TokenKind)} {spelling : String}
    {kind : TokenKind} (h : table.lookup spelling = some kind) : (spelling, kind) ∈ table := by
  obtain ⟨before, after, rfl, -⟩ := List.lookup_eq_some_iff.mp h
  simp

namespace Token.Spelled

variable {t : Token}

/-- A name is no reserved word. -/
theorem lookup_keywords (h : t.Spelled) (hk : t.kind = .identifier) :
    keywords.lookup t.lexeme = none := by
  cases h with
  | punctuation h =>
    have hno : ∀ entry ∈ LoxInterpreter.punctuation, entry.2 ≠ .identifier := by decide
    exact absurd hk (hno _ (mem_of_lookup_eq_some h))
  | number h | string h =>
    rw [h] at hk
    cases hk
  | word h =>
    cases hword : keywords.lookup t.lexeme with
    | none => rfl
    | some kind =>
      have hno : ∀ entry ∈ keywords, entry.2 ≠ .identifier := by decide
      rw [hword, Option.getD_some, hk] at h
      exact absurd h.symm (hno _ (mem_of_lookup_eq_some hword))

/-- No token that is spelled stands for the end of the text. -/
theorem kind_ne_endOfText (h : t.Spelled) : t.kind ≠ .endOfText := by
  intro hk
  cases h with
  | punctuation h =>
    have hno : ∀ entry ∈ LoxInterpreter.punctuation, entry.2 ≠ .endOfText := by decide
    exact hno _ (mem_of_lookup_eq_some h) hk
  | number h | string h =>
    rw [h] at hk
    cases hk
  | word h =>
    rw [hk] at h
    cases hword : keywords.lookup t.lexeme with
    | none =>
      rw [hword] at h
      cases h
    | some kind =>
      have hno : ∀ entry ∈ keywords, entry.2 ≠ .endOfText := by decide
      rw [hword, Option.getD_some] at h
      exact hno _ (mem_of_lookup_eq_some hword) h.symm

/-- A name is not spelled like a reserved word. -/
theorem lexeme_ne (h : t.Spelled) (hk : t.kind = .identifier) {word : String}
    (hword : keywords.lookup word ≠ none) : t.lexeme ≠ word := by
  rintro rfl
  exact hword (h.lookup_keywords hk)

/-- A reserved word has its own spelling. -/
theorem lexeme_eq (h : t.Spelled) {word : String} {kind : TokenKind} (hk : t.kind = kind)
    (hpunctuation : ∀ entry ∈ LoxInterpreter.punctuation, entry.2 ≠ kind)
    (hkind : kind ≠ .number ∧ kind ≠ .string ∧ kind ≠ .identifier)
    (hword : ∀ entry ∈ keywords, entry.2 = kind → entry.1 = word) : t.lexeme = word := by
  subst hk
  cases h with
  | punctuation h => exact absurd rfl (hpunctuation _ (mem_of_lookup_eq_some h))
  | number h => exact absurd h hkind.1
  | string h => exact absurd h hkind.2.1
  | word h =>
    cases hlookup : keywords.lookup t.lexeme with
    | none => exact absurd (by rw [h, hlookup]; rfl) hkind.2.2
    | some kind =>
      rw [hlookup, Option.getD_some] at h
      exact hword _ (mem_of_lookup_eq_some hlookup) h.symm

theorem lexeme_this (h : t.Spelled) (hk : t.kind = .thisWord) : t.lexeme = "this" :=
  h.lexeme_eq hk (by decide) (by decide) (by decide)

theorem lexeme_super (h : t.Spelled) (hk : t.kind = .superWord) : t.lexeme = "super" :=
  h.lexeme_eq hk (by decide) (by decide) (by decide)

end Token.Spelled

end LoxInterpreter
