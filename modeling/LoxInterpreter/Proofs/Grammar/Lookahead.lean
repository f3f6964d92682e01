import LoxInterpreter.Proofs.Grammar.Exactness
import LoxInterpreter.Proofs.Grammar.Loose
import Mathlib.Data.List.Pairwise

/-!
# One token ahead

What the next token tells about the words of the loose grammar.

* `Possible` says that a language is not empty; every symbol stands for something.
* `Begins` names the kinds of token that the words of a language begin with.
* `Behind` and `Narrows` say what is left of a language once its first token is known, or only
  looked at. For `alternatives` that no two tokens share, the first token decides.
-/

namespace LoxInterpreter.Grammar

open Computability

/-! ### Languages that are not empty -/

/-- There is something in the language. -/
def Possible (L : Words) : Prop := ∃ ts, ts ∈ L

section Possible

variable {L M : Words} {kinds : List TokenKind}

@[simp]
theorem possible_one : Possible 1 := ⟨[], rfl⟩

@[simp]
theorem possible_kstar : Possible L∗ := ⟨[], Language.nil_mem_kstar L⟩

@[simp]
theorem possible_mul : Possible (L * M) ↔ Possible L ∧ Possible M := by
  simp [Possible, Language.mem_mul]

/-- The sum of two languages is their supremum. -/
@[simp]
theorem possible_sup : Possible (L ⊔ M) ↔ Possible L ∨ Possible M := by
  simp only [Possible, ← add_eq_sup, Language.mem_add, exists_or]

@[simp]
theorem possible_oneOf : Possible (oneOf kinds) ↔ kinds ≠ [] := by
  constructor
  · rintro ⟨ts, hts⟩ rfl
    obtain ⟨t, ht, -⟩ := mem_oneOf.mp hts
    cases ht
  · intro hne
    obtain ⟨k, hk⟩ := List.exists_mem_of_ne_nil kinds hne
    exact ⟨[{ (default : Token) with kind := k }], mem_oneOf.mpr ⟨_, hk, rfl⟩⟩

/-- There are expressions of every level. -/
@[simp]
theorem possible_level (l : Level) : Possible l.language := by
  have hprimary : Possible Level.primary.language := by simp [language_primary]
  have hcall : Possible Level.call.language := by simp [language_call, hprimary]
  have hunary : Possible Level.unary.language := by
    rw [language_unary]
    simp [hcall]
  have hoperation := Level.of_unary (P := fun l => Possible l.language) hunary
    fun hl ho h => by simp [language_operation hl ho, h]
  cases l with
  | assignment =>
    rw [language_assignment]
    simp [hoperation .disjunction (by decide)]
  | unary | call | primary => assumption
  | _ => exact hoperation _ (by decide)

/-- Every symbol stands for something. -/
@[simp]
theorem possible_symbol (s : Symbol) : Possible s.language := by
  have hblock : Possible Symbol.block.language := by simp [language_block]
  have hstatement : Possible Symbol.statement.language := by simp [language_statement, hblock]
  cases s with
  | expression l => exact possible_level l
  | arguments => simp [language_arguments]
  | parameters => simp [language_parameters]
  | routine => simp [language_routine, hblock]
  | block => exact hblock
  | variableDeclaration => simp [language_variable, variableLanguage]
  | declaration => simp [language_declaration, hstatement]
  | statement => exact hstatement
  | program => simp [language_program]

end Possible

/-! ### First tokens -/

/-- Everything in the language begins with a token of one of the kinds. -/
def Begins (kinds : List TokenKind) (L : Words) : Prop :=
  ∀ ts ∈ L, ∃ t us, ts = t :: us ∧ t.kind ∈ kinds

section Begins

variable {L M : Words} {kinds kinds' : List TokenKind} {t : Token} {ts : List Token}

theorem begins_oneOf : Begins kinds (oneOf kinds) := by
  intro ts hts
  obtain ⟨t, ht, rfl⟩ := mem_oneOf.mp hts
  exact ⟨t, [], rfl, ht⟩

theorem begins_zero : Begins kinds 0 :=
  fun _ hts => hts.elim

theorem Begins.mono (h : Begins kinds L) (hk : kinds ⊆ kinds') : Begins kinds' L := by
  intro ts hts
  obtain ⟨t, us, rfl, ht⟩ := h ts hts
  exact ⟨t, us, rfl, hk ht⟩

theorem Begins.mul (h : Begins kinds L) (M : Words) : Begins kinds (L * M) := by
  intro ts hts
  obtain ⟨us, hus, vs, -, rfl⟩ := Language.mem_mul.mp hts
  obtain ⟨t, us, rfl, ht⟩ := h us hus
  exact ⟨t, us ++ vs, rfl, ht⟩

theorem Begins.add (hL : Begins kinds L) (hM : Begins kinds M) : Begins kinds (L + M) := by
  intro ts hts
  exact hts.elim (hL ts) (hM ts)

theorem Begins.cons_mem (h : Begins kinds L) (hts : t :: ts ∈ L) : t.kind ∈ kinds := by
  obtain ⟨t, us, he, ht⟩ := h _ hts
  cases he
  exact ht

theorem Begins.not_cons_mem (h : Begins kinds' L) (hk : ∀ k ∈ kinds, k ∉ kinds')
    (ht : t.kind ∈ kinds) : t :: ts ∉ L :=
  fun hts => hk t.kind ht (h.cons_mem hts)

theorem cons_mem_oneOf_mul :
    t :: ts ∈ oneOf kinds * M ↔ t.kind ∈ kinds ∧ ts ∈ M := by
  constructor
  · intro h
    obtain ⟨us, hus, vs, hvs, he⟩ := Language.mem_mul.mp h
    obtain ⟨t, ht, rfl⟩ := mem_oneOf.mp hus
    cases he
    exact ⟨ht, hvs⟩
  · rintro ⟨ht, hts⟩
    exact Language.append_mem_mul (mem_oneOf.mpr ⟨t, ht, rfl⟩) hts

theorem begins_primary : Begins operandStarters Level.primary.language := by
  rw [language_primary]
  refine (begins_oneOf.mono ?_).add (((begins_oneOf.mul _).mono ?_).add
    ((begins_oneOf.mul _).mono ?_)) <;> decide

theorem begins_call : Begins operandStarters Level.call.language := by
  rw [language_call]
  exact begins_primary.mul _

theorem begins_unary : Begins expressionStarters Level.unary.language := by
  rw [language_unary]
  exact ((begins_oneOf.mul _).mono (by decide)).add (begins_call.mono (by decide))

/-- An expression of any level begins with a prefix operator or with an operand. -/
theorem begins_level (l : Level) : Begins expressionStarters l.language := by
  have hoperation := Level.of_unary (P := fun l => Begins expressionStarters l.language)
    begins_unary fun hl ho h => by
      rw [language_operation hl ho]
      exact h.mul _
  cases l with
  | assignment =>
    rw [language_assignment]
    exact (hoperation .disjunction (by decide)).mul _
  | unary => exact begins_unary
  | call => exact begins_call.mono (by decide)
  | primary => exact begins_primary.mono (by decide)
  | _ => exact hoperation _ (by decide)

theorem begins_arguments : Begins expressionStarters Symbol.arguments.language := by
  rw [language_arguments]
  exact (begins_level .assignment).mul _

theorem begins_parameters : Begins [.identifier] Symbol.parameters.language := by
  rw [language_parameters]
  exact begins_oneOf.mul _

theorem begins_routine : Begins [.identifier] Symbol.routine.language := by
  rw [language_routine]
  exact begins_oneOf.mul _

theorem begins_block : Begins [.leftBrace] Symbol.block.language := by
  rw [language_block]
  exact begins_oneOf.mul _

theorem begins_statement : Begins statementStarters Symbol.statement.language := by
  have hword {k : TokenKind} (hk : k ∈ statementStarters) (L : Words) :
      Begins statementStarters (oneOf [k] * L) :=
    (begins_oneOf.mul L).mono (by simpa using hk)
  rw [language_statement]
  refine (hword (by decide) _).add <| (hword (by decide) _).add <| (hword (by decide) _).add <|
    (hword (by decide) _).add <| (hword (by decide) _).add <| Begins.add ?_ ?_
  · exact begins_block.mono (by decide)
  · exact ((begins_level .assignment).mul _).mono (by decide)

theorem begins_declaration : Begins declarationStarters Symbol.declaration.language := by
  have hword {k : TokenKind} (hk : k ∈ declarationStarters) (L : Words) :
      Begins declarationStarters (oneOf [k] * L) :=
    (begins_oneOf.mul L).mono (by simpa using hk)
  rw [language_declaration, language_variable]
  exact (hword (by decide) _).add <| (hword (by decide) _).add <| (hword (by decide) _).add <|
    begins_statement.mono (by decide)

end Begins

/-! ### A word of `L` and something of `K` behind it -/

/-- Behind the token the words of `L` are those of `M`. -/
structure Behind (t : Token) (L M K : Words) : Prop where
  cons_mem : ∀ us ∈ M, t :: us ∈ L
  of_cons : ∀ us, t :: us ∈ L * K → us ∈ M * K

/-- Among what begins as `rest` does, the words of `L` are those of `M`. -/
structure Narrows (L M K : Words) (rest : List Token) : Prop where
  subset : ∀ us ∈ M, us ∈ L
  of_head : ∀ us ∈ L * K, us.head? = rest.head? → us ∈ M * K

/-- Nothing in the language begins as `rest` does. -/
def Absent (L : Words) (rest : List Token) : Prop := ∀ us ∈ L, us.head? ≠ rest.head?

section Absent

variable {kinds : List TokenKind} {L M K : Words} {rest : List Token}

theorem Begins.absent (h : Begins kinds L) (hrest : ∀ t ∈ rest.head?, t.kind ∉ kinds) :
    Absent L rest := by
  intro us hus hhead
  obtain ⟨t, us, rfl, ht⟩ := h us hus
  exact hrest t (by simp [← hhead]) ht

theorem narrows_left (h : Absent (M * K) rest) : Narrows (L + M) L K rest where
  subset _ := .inl
  of_head us hus hhead := by
    rw [add_mul] at hus
    exact hus.resolve_right fun hM => h us hM hhead

theorem narrows_right (h : Absent (L * K) rest) : Narrows (L + M) M K rest where
  subset _ := .inr
  of_head us hus hhead := by
    rw [add_mul] at hus
    exact hus.resolve_left fun hL => h us hL hhead

end Absent

/-- A word of the last language, or a token of one of the kinds and a word of the language that
stands beside them. -/
def alternatives (alts : List (List TokenKind × Words)) (L : Words) : Words :=
  alts.foldr (fun a M => oneOf a.1 * a.2 + M) L

section Alternatives

variable {alts : List (List TokenKind × Words)} {a : List TokenKind × Words}
  {kinds : List TokenKind} {L M K : Words} {t : Token} {us rest : List Token}

theorem mem_alternatives (hus : us ∈ L) : us ∈ alternatives alts L := by
  induction alts with
  | nil => exact hus
  | cons a alts ih => exact .inr ih

theorem cons_mem_alternatives (ha : a ∈ alts) (ht : t.kind ∈ a.1) (hus : us ∈ a.2) :
    t :: us ∈ alternatives alts L := by
  induction alts with
  | nil => cases ha
  | cons b alts ih =>
    cases ha with
    | head => exact .inl (cons_mem_oneOf_mul.mpr ⟨ht, hus⟩)
    | tail _ ha => exact .inr (ih ha)

/-- With something behind it, a word is behind a token or one of the last language. -/
theorem of_mem_alternatives_mul (h : us ∈ alternatives alts L * K) :
    (∃ a ∈ alts, us ∈ oneOf a.1 * (a.2 * K)) ∨ us ∈ L * K := by
  induction alts with
  | nil => exact .inr h
  | cons a alts ih =>
    rw [alternatives, List.foldr_cons, add_mul, mul_assoc] at h
    cases h with
    | inl h => exact .inl ⟨a, List.mem_cons_self, h⟩
    | inr h => exact (ih h).imp_left fun ⟨b, hb, h⟩ => ⟨b, List.mem_cons_of_mem _ hb, h⟩

/-- A token shows which alternative it is, if no two share a kind and if the last language does
not matter behind it. -/
theorem behind_alternatives (hdisjoint : alts.Pairwise (·.1.Disjoint ·.1)) (ha : a ∈ alts)
    (ht : t.kind ∈ a.1) (hL : ∀ us, t :: us ∈ L * K → us ∈ a.2 * K) :
    Behind t (alternatives alts L) a.2 K where
  cons_mem us := cons_mem_alternatives ha ht
  of_cons us hus := by
    obtain ⟨b, hb, h⟩ | h := of_mem_alternatives_mul hus
    · obtain ⟨htb, hus⟩ := cons_mem_oneOf_mul.mp h
      have : Std.Symm fun a b : List TokenKind × Words => a.1.Disjoint b.1 :=
        ⟨fun _ _ h => h.symm⟩
      have hab : a = b := by
        by_contra hne
        exact hdisjoint.forall ha hb hne ht htb
      rwa [hab]
    · exact hL us h

/-- A token of none of the alternatives shows that it is none of them. -/
theorem narrows_alternatives (h : ∀ t ∈ rest.head?, ∀ a ∈ alts, t.kind ∉ a.1) :
    Narrows (alternatives alts L) L K rest where
  subset _ := mem_alternatives
  of_head us hus hhead := by
    obtain ⟨a, ha, hmem⟩ | hmem := of_mem_alternatives_mul hus
    · obtain ⟨t, us, rfl, ht⟩ := begins_oneOf.mul _ us hmem
      exact absurd ht (h t (by simp [← hhead]) a ha)
    · exact hmem

theorem behind_oneOf_mul (ht : t.kind ∈ kinds) : Behind t (oneOf kinds * M) M K where
  cons_mem us hus := cons_mem_oneOf_mul.mpr ⟨ht, hus⟩
  of_cons us hus := by
    rw [mul_assoc] at hus
    exact (cons_mem_oneOf_mul.mp hus).2

end Alternatives

end LoxInterpreter.Grammar
