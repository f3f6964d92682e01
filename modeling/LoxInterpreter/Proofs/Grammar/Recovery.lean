import LoxInterpreter.Proofs.Grammar.Blame
import LoxInterpreter.Proofs.Grammar.Earliest
import LoxInterpreter.Scan
import Mathlib.Order.Bounds.Basic

/-!
# Where parsing goes on after a mistake

A declaration that cannot be read is given up, and parsing goes on at a boundary between statements
(`Boundary`): at the end of the text, before a word that begins a statement, or behind a semicolon.
From the token that is blamed, `resume` drops one token whatever it is, and then as few as it takes
to get to a boundary (`exists_resume`).

So parsing goes on at the first boundary behind the token that is blamed (`declaration_resumes`).
The boundary at that token itself is missed: a statement whose first word is blamed for the mistakes
of the statement before it is thrown away (`declaration_misses_boundary`).
-/

namespace LoxInterpreter.Parse

/-! ### Boundaries between statements -/

/-- Where a parser may go on that has given up at the place `e`: at the end of the tokens, before a
word that begins a statement, or behind a semicolon that it has dropped. -/
def Boundary (tokens : List Token) (e r : Nat) : Prop :=
  r = tokens.length ∨ (∃ t, tokens[r]? = some t ∧ beginsStatement t.kind = true) ∨
    (e < r ∧ ∃ t, tokens[r - 1]? = some t ∧ t.kind = .semicolon)

/-- Behind a token that has been dropped parsing goes on at the next boundary. -/
theorem exists_resumeAfter {tokens : List Token} {e k : Nat} {last : Token}
    (hlast : tokens[k]? = some last) (he : e ≤ k) :
    ∃ r, resumeAfter last (tokens.drop (k + 1)) = tokens.drop r ∧
      IsLeast {r | k + 1 ≤ r ∧ Boundary tokens e r} r := by
  induction hrest : tokens.drop (k + 1) generalizing k last with
  | nil =>
    have hlength : tokens.length = k + 1 := by
      obtain ⟨hk, -⟩ := List.getElem?_eq_some_iff.mp hlast
      have := List.drop_eq_nil_iff.mp hrest
      omega
    refine ⟨k + 1, ?_, ⟨⟨Nat.le_refl _, .inl hlength.symm⟩, fun r hr => hr.1⟩⟩
    rw [resumeAfter, hrest]
  | cons t rest ih =>
    have hnext : tokens[k + 1]? = some t := by
      rw [← List.head?_drop, hrest]
      rfl
    rw [resumeAfter]
    split
    · next hstop =>
      refine ⟨k + 1, hrest.symm, ⟨Nat.le_refl _, ?_⟩, fun r hr => hr.1⟩
      rcases hstop with hsemicolon | hbegins
      · exact .inr (.inr ⟨Nat.lt_succ_of_le he, last, hlast, hsemicolon⟩)
      · exact .inr (.inl ⟨t, hnext, hbegins⟩)
    · next hgo =>
      have hdrop : tokens.drop (k + 1 + 1) = rest := by
        rw [← List.tail_drop, hrest]
        rfl
      obtain ⟨r, hresume, ⟨hr, hboundary⟩, hleast⟩ := ih hnext (Nat.le_succ_of_le he) hdrop
      refine ⟨r, hresume, ⟨Nat.le_of_succ_le hr, hboundary⟩, fun r' ⟨hr', hb⟩ => ?_⟩
      -- the place that is passed over is no boundary
      refine hleast ⟨Nat.lt_of_le_of_ne hr' ?_, hb⟩
      rintro rfl
      rcases hb with hend | ⟨u, hu, hbegins⟩ | ⟨-, u, hu, hsemicolon⟩
      · rw [hend, List.getElem?_eq_none (Nat.le_refl _)] at hnext
        cases hnext
      · cases hnext.symm.trans hu
        exact hgo (.inr hbegins)
      · cases hlast.symm.trans hu
        exact hgo (.inl hsemicolon)

/-- **Parsing goes on at the first boundary behind the place where it gave up**, or at the end if it
gave up there. -/
theorem exists_resume {tokens : List Token} {e : Nat} (he : e ≤ tokens.length) :
    ∃ r, resume (tokens.drop e) = tokens.drop r ∧
      IsLeast {r | min (e + 1) tokens.length ≤ r ∧ Boundary tokens e r} r := by
  rcases Nat.lt_or_eq_of_le he with hlt | rfl
  · have hget : tokens[e]? = some tokens[e] := List.getElem?_eq_getElem hlt
    rw [List.drop_eq_getElem_cons hlt, resume, Nat.min_eq_left hlt]
    exact exists_resumeAfter hget (Nat.le_refl e)
  · refine ⟨tokens.length, ?_, ⟨Nat.min_le_right _ _, .inl rfl⟩, fun r hr => ?_⟩
    · rw [List.drop_length, resume]
    · exact (Nat.le_min.mpr ⟨Nat.le_succ _, Nat.le_refl _⟩).trans hr.1

/-- Unless the token where parsing gave up begins a statement, the first boundary behind it is the
first boundary from it on. -/
theorem isLeast_boundary {tokens : List Token} {e r : Nat} (he : e ≤ tokens.length)
    (hr : IsLeast {r | min (e + 1) tokens.length ≤ r ∧ Boundary tokens e r} r)
    (hnext : ∀ t, tokens[e]? = some t → beginsStatement t.kind = false) :
    IsLeast {r | e ≤ r ∧ Boundary tokens e r} r := by
  obtain ⟨⟨hle, hboundary⟩, hleast⟩ := hr
  refine ⟨⟨by omega, hboundary⟩, fun r' ⟨hr', hb⟩ => hleast ⟨?_, hb⟩⟩
  rcases hb with hend | ⟨t, ht, hbegins⟩ | ⟨hlt, -⟩
  · omega
  · have hne : r' ≠ e := by
      rintro rfl
      rw [hnext t ht] at hbegins
      cases hbegins
    omega
  · omega

/-! ### Declarations -/

/-- How parsing goes on when a declaration that begins at the place `i` is given up with the cursor
at `s₁`: the place of the mistake is `e`, and the place to go on is `r`. -/
structure Resumes (tokens : List Token) (n i : Nat) (ms : List SyntaxMistake) (s₁ : Cursor)
    (e r : Nat) : Prop where
  inside : i ≤ e ∧ e ≤ tokens.length
  /-- The latest mistake is the one that unwinds, and blames the token there. -/
  blamed : ∃ earlier cause, ms <+: earlier ∧ cause.unwinds = true ∧
    s₁ = ⟨tokens.drop e, earlier ++ [⟨tokens[e]?, cause⟩]⟩
  declaration : declarationAt (n + 1) ⟨tokens.drop i, ms⟩ =
    .ok .malformed ⟨tokens.drop r, s₁.mistakes⟩
  /-- A list of declarations has a gap and is continued. -/
  continued : ∀ closing bound t, tokens[i]? = some t → t.kind ∉ closing →
    declarations (declarationAt (n + 1)) closing (bound + 1) ⟨tokens.drop i, ms⟩ =
      (List.cons .malformed <$> declarations (declarationAt (n + 1)) closing bound)
        ⟨tokens.drop r, s₁.mistakes⟩
  behind : IsLeast {r | min (e + 1) tokens.length ≤ r ∧ Boundary tokens e r} r
  nearest : (∀ t, tokens[e]? = some t → beginsStatement t.kind = false) →
    IsLeast {r | e ≤ r ∧ Boundary tokens e r} r

/-- **Where parsing goes on after a mistake.** If a declaration cannot be read, the mistake for
which it is given up is blamed on a token in it or just behind it, or on the end of the text.
Parsing goes on at the first boundary behind that token. This is the first boundary from the token
on, unless the token begins a statement itself. -/
theorem declaration_resumes {tokens : List Token} {n i : Nat} {ms : List SyntaxMistake}
    {s₁ : Cursor} (hi : i ≤ tokens.length)
    (h : unguarded (partsAt n) ⟨tokens.drop i, ms⟩ = .error .unwound s₁) :
    ∃ e r, Resumes tokens n i ms s₁ e r := by
  have hblamed := blamesNext_unguarded (T := fun _ => True) (blameNext_partsAt n)
    ⟨tokens.drop i, ms⟩ fun _ _ => trivial
  rw [h] at hblamed
  obtain ⟨⟨rest, earlier⟩, cause, ⟨hrest, new, hnew, -⟩, hcause, rfl⟩ := hblamed
  -- the tokens left are those from some place on
  obtain ⟨e, hie, he, rfl⟩ : ∃ e, i ≤ e ∧ e ≤ tokens.length ∧ rest = tokens.drop e := by
    obtain ⟨read, hread⟩ := hrest
    have hlength := congrArg List.length hread
    rw [List.length_append, List.length_drop] at hlength
    have hdrop := congrArg (List.drop read.length) hread
    rw [List.drop_left, List.drop_drop] at hdrop
    exact ⟨i + read.length, Nat.le_add_right _ _, by omega, hdrop⟩
  obtain ⟨r, hresume, hleast⟩ := exists_resume he
  have hdeclaration : declarationAt (n + 1) ⟨tokens.drop i, ms⟩ =
      .ok .malformed ⟨tokens.drop r, earlier ++ [⟨(tokens.drop e).head?, cause⟩]⟩ := by
    have hrecover : declarationAt (n + 1) = recover (unguarded (partsAt n)) :=
      declaration_eq_recover (partsAt n)
    rw [hrecover, recover, h, ← hresume]
    rfl
  refine ⟨e, r, ⟨hie, he⟩, ⟨earlier, cause, ⟨new, hnew.symm⟩, hcause, ?_⟩, hdeclaration,
    fun closing bound t ht hclosing => ?_, hleast, isLeast_boundary he hleast⟩
  · rw [Cursor.blame, List.head?_drop]
  · obtain ⟨hlt, rfl⟩ := List.getElem?_eq_some_iff.mp ht
    rw [List.drop_eq_getElem_cons hlt] at hdeclaration ⊢
    rw [declarations_cons hclosing]
    show EStateM.bind _ _ _ = _
    rw [EStateM.bind, hdeclaration, ← bind_pure_comp]
    rfl

/-- A text in which a name is missing in front of a semicolon, and a statement comes behind it. -/
def missingName : String := "\x7b var; print nil; \x7d"

/-- In the block the declaration is given up at the semicolon, and the statement behind it is the
next to be read. -/
theorem declaration_resumes_missingName :
    let tokens := (scan missingName).tokens
    let s₁ : Cursor := ⟨tokens.drop 2, [⟨tokens[2]?, .variableName⟩]⟩
    1 ≤ tokens.length ∧ unguarded (partsAt 5) ⟨tokens.drop 1, []⟩ = .error .unwound s₁ ∧
      ∃ e r, Resumes tokens 5 1 [] s₁ e r := by
  have hlength : 1 ≤ (scan missingName).tokens.length := by decide +kernel
  have hunwound : unguarded (partsAt 5) ⟨(scan missingName).tokens.drop 1, []⟩ =
      .error .unwound ⟨(scan missingName).tokens.drop 2,
        [⟨(scan missingName).tokens[2]?, .variableName⟩]⟩ := by
    rfl
  exact ⟨hlength, hunwound, declaration_resumes hlength hunwound⟩

/-- A text with two statements and no semicolon between them. -/
def missingSemicolon : String := "print nil print nil;"

/-- The word that begins the second statement is blamed for the mistake in the first, and is
dropped with all that comes behind it, although it stands at a boundary: the second statement is
never read. -/
theorem declaration_misses_boundary :
    let tokens := (scan missingSemicolon).tokens
    tokens.length = 5 ∧
      unguarded (partsAt 5) ⟨tokens, []⟩ =
        .error .unwound ⟨tokens.drop 2, [⟨tokens[2]?, .printEnd⟩]⟩ ∧
      IsLeast {r | 2 ≤ r ∧ Boundary tokens 2 r} 2 ∧
      declarationAt 6 ⟨tokens, []⟩ =
        .ok .malformed ⟨tokens.drop 5, [⟨tokens[2]?, .printEnd⟩]⟩ ∧
      parse tokens = ⟨[.malformed], [⟨tokens[2]?, .printEnd⟩]⟩ := by
  refine ⟨rfl, rfl, ⟨⟨Nat.le_refl _, ?_⟩, fun r hr => hr.1⟩, rfl, rfl⟩
  exact .inr (.inl ⟨_, rfl, rfl⟩)

end LoxInterpreter.Parse
