import Mathlib.Computability.Language
import Mathlib.Data.List.TakeWhile
import LoxInterpreter.Proofs.Scan.Token

/-!
# The languages of the patterns

A pattern as a regular expression, read as the set of the texts that it matches
(`Pattern.language`). The lexicon does not search: it computes for each pattern how far a match
reaches, and lets the patterns compete.

* `longestIn_longest`: what is computed for a pattern is the length of the longest prefix that
  belongs to its language.
* `wins_winner`: the pattern that wins the competition is the first declared one of those that match
  the longest prefix that any of them matches (`Pattern.Wins`).
* `cut_iff`: there is one way to cut a text into winning pieces (`Cut`).
-/

namespace LoxInterpreter

open Computability

namespace Pattern

/-! ### Regular expressions -/

/-- One character of a class. -/
def oneOf (p : Char → Bool) : Language Char := {w | ∃ c, p c = true ∧ w = [c]}

/-- A character that stands for itself. -/
def just (c : Char) : Language Char := oneOf (· == c)

/-- The brackets and operators that no other operator begins with. -/
def loneMarks : List Char := "()\x7b\x7d,.-+;*/".toList

/-- The operators that an equals sign may follow. -/
def leadingMarks : List Char := "!=<>".toList

/-- **The patterns.** Each is given by a regular expression: `*` for one after the other, `+` for
either, `1` for nothing and a star for any number. -/
def language : Pattern → Language Char
  | blank => oneOf isBlank * (oneOf isBlank)∗
  | comment => just '/' * (just '/' * (oneOf isInline)∗)
  | punctuation => oneOf loneMarks.contains + oneOf leadingMarks.contains * (1 + just '=')
  | number =>
    (oneOf isDigit * (oneOf isDigit)∗) * (1 + just '.' * (oneOf isDigit * (oneOf isDigit)∗))
  | string => oneOf isQuote * ((oneOf fun c => !isQuote c)∗ * oneOf isQuote)
  | word => oneOf isWordStart * (oneOf isWordPart)∗
  | unterminated => oneOf isQuote * (oneOf fun c => !isQuote c)∗
  | stray => oneOf fun _ => true

section Membership

variable {p : Char → Bool} {c : Char} {L : Language Char} {w rest text : List Char} {n : Nat}

theorem mem_oneOf : w ∈ oneOf p ↔ ∃ c, p c = true ∧ w = [c] := Iff.rfl

theorem mem_just : w ∈ just c ↔ w = [c] := by
  simp [just, mem_oneOf]

theorem mem_oneOf_mul : w ∈ oneOf p * L ↔ ∃ c v, p c = true ∧ v ∈ L ∧ w = c :: v := by
  rw [Language.mem_mul]
  constructor
  · rintro ⟨_, ⟨c, hc, rfl⟩, v, hv, rfl⟩
    exact ⟨c, v, hc, hv, rfl⟩
  · rintro ⟨c, v, hc, hv, rfl⟩
    exact ⟨[c], ⟨c, hc, rfl⟩, v, hv, rfl⟩

theorem mem_kstar_oneOf : w ∈ (oneOf p)∗ ↔ ∀ c ∈ w, p c = true := by
  rw [Language.mem_kstar]
  constructor
  · rintro ⟨pieces, rfl, hpieces⟩ c hc
    obtain ⟨piece, hpiece, hc⟩ := List.mem_flatten.mp hc
    obtain ⟨d, hd, rfl⟩ := hpieces piece hpiece
    rwa [List.mem_singleton.mp hc]
  · intro hw
    refine ⟨w.map ([·]), ?_, fun piece hpiece => ?_⟩
    · rw [← List.flatMap_def, List.flatMap_singleton']
    obtain ⟨c, hc, rfl⟩ := List.mem_map.mp hpiece
    exact ⟨c, hw c hc, rfl⟩

/-- At least one character of a class. -/
theorem mem_plus_oneOf : w ∈ oneOf p * (oneOf p)∗ ↔ w ≠ [] ∧ ∀ c ∈ w, p c = true := by
  rw [mem_oneOf_mul]
  constructor
  · rintro ⟨c, v, hc, hv, rfl⟩
    exact ⟨List.cons_ne_nil c v, List.forall_mem_cons.mpr ⟨hc, mem_kstar_oneOf.mp hv⟩⟩
  · rintro ⟨hnil, hw⟩
    obtain ⟨c, v, rfl⟩ := List.exists_cons_of_ne_nil hnil
    obtain ⟨hc, hv⟩ := List.forall_mem_cons.mp hw
    exact ⟨c, v, hc, mem_kstar_oneOf.mpr hv, rfl⟩

/-- No pattern matches the empty text. -/
theorem ne_nil_of_mem_language {q : Pattern} (h : w ∈ q.language) : w ≠ [] := by
  rintro rfl
  cases q with
  | blank | comment | string | word | unterminated =>
    obtain ⟨c, v, -, -, hnil⟩ := mem_oneOf_mul.mp h
    cases hnil
  | stray =>
    obtain ⟨c, -, hnil⟩ := h
    cases hnil
  | punctuation =>
    rcases (Language.mem_add ..).mp h with ⟨c, -, hnil⟩ | h
    · cases hnil
    · obtain ⟨c, v, -, -, hnil⟩ := mem_oneOf_mul.mp h
      cases hnil
  | number =>
    obtain ⟨whole, hwhole, fraction, -, hnil⟩ := Language.mem_mul.mp h
    exact (mem_plus_oneOf.mp hwhole).1 (List.append_eq_nil_iff.mp hnil).1

end Membership

/-! ### Longest prefixes -/

/-- The number is the length of the longest prefix of the text in the language, or zero if there is
no such prefix. -/
structure LongestIn (L : Language Char) (text : List Char) (n : Nat) : Prop where
  take_mem : 0 < n → text.take n ∈ L
  length_le : ∀ w ∈ L, w <+: text → w.length ≤ n

section Longest

variable {p : Char → Bool} {c : Char} {L : Language Char} {w rest text : List Char} {n : Nat}

theorem take_run (p : Char → Bool) (text : List Char) :
    text.take (run p text) = text.takeWhile p :=
  (List.prefix_iff_eq_take.mp (List.takeWhile_prefix p)).symm

/-- What is in a class belongs to a run of it. -/
theorem run_append_of_forall (hw : ∀ c ∈ w, p c = true) (rest : List Char) :
    run p (w ++ rest) = w.length + run p rest := by
  rw [run, List.takeWhile_append_of_pos hw, List.length_append, run]

theorem run_cons_of_neg (hc : p c = false) (rest : List Char) : run p (c :: rest) = 0 := by
  rw [run, List.takeWhile_cons_of_neg (by simp [hc]), List.length_nil]

theorem run_cons_of_pos (hc : p c = true) (rest : List Char) :
    run p (c :: rest) = run p rest + 1 := by
  rw [run, List.takeWhile_cons_of_pos hc, List.length_cons, run]

/-- What ends a run is not in the class. -/
theorem getElem_run (h : run p text < text.length) : p text[run p text] = false := by
  induction text with
  | nil => cases h
  | cons c rest ih =>
    cases hc : p c with
    | false => simpa [run_cons_of_neg hc] using hc
    | true =>
      simp only [run_cons_of_pos hc] at h ⊢
      exact ih (Nat.lt_of_succ_lt_succ h)

theorem length_le_run (hw : ∀ c ∈ w, p c = true) (h : w <+: text) : w.length ≤ run p text := by
  obtain ⟨rest, rfl⟩ := h
  rw [run_append_of_forall hw]
  exact Nat.le_add_right _ _

/-- Any number of characters of a class: a run of it, be it empty. -/
theorem take_run_mem_kstar (p : Char → Bool) (text : List Char) :
    text.take (run p text) ∈ (oneOf p)∗ := by
  rw [take_run, mem_kstar_oneOf]
  exact fun _ => List.mem_takeWhile_imp

theorem longestIn_plus (p : Char → Bool) (text : List Char) :
    LongestIn (oneOf p * (oneOf p)∗) text (run p text) where
  take_mem hpos := by
    rw [take_run, mem_plus_oneOf]
    exact ⟨List.ne_nil_of_length_pos hpos, fun _ => List.mem_takeWhile_imp⟩
  length_le w hw h := length_le_run (mem_plus_oneOf.mp hw).2 h

/-- A character of the class, and then the longest prefix of the rest. -/
theorem longestIn_cons (hc : p c = true) (hmem : rest.take n ∈ L)
    (hle : ∀ w ∈ L, w <+: rest → w.length ≤ n) :
    LongestIn (oneOf p * L) (c :: rest) (n + 1) where
  take_mem _ := mem_oneOf_mul.mpr ⟨c, rest.take n, hc, hmem, rfl⟩
  length_le w hw h := by
    obtain ⟨d, v, -, hv, rfl⟩ := mem_oneOf_mul.mp hw
    exact Nat.succ_le_succ (hle v hv (List.cons_prefix_cons.mp h).2)

/-- No prefix begins with another character. -/
theorem longestIn_cons_zero (h : ∀ v ∈ L, p c = true → ¬v <+: rest) :
    LongestIn (oneOf p * L) (c :: rest) 0 where
  take_mem hpos := absurd hpos (Nat.lt_irrefl 0)
  length_le w hw hprefix := by
    obtain ⟨d, v, hd, hv, rfl⟩ := mem_oneOf_mul.mp hw
    obtain ⟨rfl, hrest⟩ := List.cons_prefix_cons.mp hprefix
    exact absurd hrest (h v hv hd)

/-- A character of one class, and then a run of another. -/
theorem longestIn_cons_kstar {q : Char → Bool} (c : Char) (rest : List Char) :
    LongestIn (oneOf p * (oneOf q)∗) (c :: rest) (if p c then 1 + run q rest else 0) := by
  split
  · next hc =>
    rw [Nat.add_comm]
    exact longestIn_cons hc (take_run_mem_kstar q rest) fun w hw =>
      length_le_run (mem_kstar_oneOf.mp hw)
  · next hc => exact longestIn_cons_zero fun _ _ hc' => absurd hc' hc

/-- No pattern matches where no text is left. -/
theorem longestIn_nil (q : Pattern) : LongestIn q.language [] 0 where
  take_mem hpos := absurd hpos (Nat.lt_irrefl 0)
  length_le _ hw h := absurd (List.prefix_nil.mp h) (ne_nil_of_mem_language hw)

/-! #### Strings -/

/-- What a string has inside ends at the first quote. -/
theorem eq_run_of_prefix {inside : List Char} (hinside : ∀ d ∈ inside, (!isQuote d) = true)
    (hquote : isQuote c = true) (h : inside ++ [c] <+: rest) :
    inside.length = run (fun d => !isQuote d) rest ∧ inside.length < rest.length := by
  obtain ⟨tail, rfl⟩ := h
  constructor
  · rw [List.append_assoc, run_append_of_forall hinside, List.singleton_append,
      run_cons_of_neg (by simp [hquote]), Nat.add_zero]
  · simp

theorem longestIn_string (c : Char) (rest : List Char) :
    LongestIn string.language (c :: rest) (string.longest (c :: rest)) := by
  rw [longest]
  by_cases hc : isQuote c = true
  · rw [if_pos hc]
    dsimp only
    split
    · next hlt =>
      refine longestIn_cons hc ?_ fun w hw h => ?_
      · -- the run ends at a quote, which closes the string
        have hquote : isQuote rest[run (fun d => !isQuote d) rest] = true := by
          simpa using getElem_run hlt
        rw [List.take_succ_eq_append_getElem hlt]
        exact Language.append_mem_mul (take_run_mem_kstar _ _) ⟨_, hquote, rfl⟩
      · obtain ⟨inside, hinside, _, ⟨d, hd, rfl⟩, rfl⟩ := Language.mem_mul.mp hw
        obtain ⟨hlength, -⟩ := eq_run_of_prefix (mem_kstar_oneOf.mp hinside) hd h
        rw [List.length_append, hlength]
        rfl
    · next hopen =>
      refine longestIn_cons_zero fun v hv _ h => hopen ?_
      obtain ⟨inside, hinside, _, ⟨d, hd, rfl⟩, rfl⟩ := Language.mem_mul.mp hv
      obtain ⟨hlength, hlt⟩ := eq_run_of_prefix (mem_kstar_oneOf.mp hinside) hd h
      rwa [hlength] at hlt
  · rw [if_neg hc]
    exact longestIn_cons_zero fun v _ hc' => absurd hc' hc

/-! #### Comments -/

theorem longestIn_comment (text : List Char) :
    LongestIn comment.language text (comment.longest text) := by
  rcases text with _ | ⟨c, _ | ⟨d, rest⟩⟩
  · exact longestIn_nil comment
  · have hzero : comment.longest [c] = 0 := by
      rw [longest]
      rintro rest ⟨⟩
    rw [hzero]
    refine longestIn_cons_zero fun v hv _ h => ?_
    obtain ⟨d, v, -, -, rfl⟩ := mem_oneOf_mul.mp hv
    cases List.prefix_nil.mp h
  · by_cases hcd : c = '/' ∧ d = '/'
    · obtain ⟨rfl, rfl⟩ := hcd
      rw [longest, Nat.add_comm]
      refine longestIn_cons (by decide) ?_ fun w hw h => ?_
      · exact mem_oneOf_mul.mpr ⟨'/', _, by decide, take_run_mem_kstar isInline rest, rfl⟩
      · obtain ⟨e, v, -, hv, rfl⟩ := mem_oneOf_mul.mp hw
        exact Nat.succ_le_succ
          (length_le_run (mem_kstar_oneOf.mp hv) (List.cons_prefix_cons.mp h).2)
    · have hzero : comment.longest (c :: d :: rest) = 0 := by
        rw [longest]
        rintro rest' ⟨⟩
        exact hcd ⟨rfl, rfl⟩
      rw [hzero]
      refine longestIn_cons_zero fun v hv hc h => hcd ?_
      obtain ⟨e, v, he, -, rfl⟩ := mem_oneOf_mul.mp hv
      obtain ⟨rfl, -⟩ := List.cons_prefix_cons.mp h
      exact ⟨eq_of_beq hc, eq_of_beq he⟩

/-! #### Numbers -/

/-- A run of a class, and behind it possibly something that begins with no character of the class:
the longest prefix is a longest run with the longest prefix of what follows it. -/
theorem longestIn_run_append (hpos : 0 < run p text) (hL : ∀ w ∈ L, ∃ c v, w = c :: v ∧ p c = false)
    (h : LongestIn L (text.drop (run p text)) n) :
    LongestIn (oneOf p * (oneOf p)∗ * (1 + L)) text (run p text + n) where
  take_mem _ := by
    rw [List.take_add]
    refine Language.append_mem_mul ((longestIn_plus p text).take_mem hpos) ?_
    rcases Nat.eq_zero_or_pos n with rfl | hn
    · exact Or.inl rfl
    · exact Or.inr (h.take_mem hn)
  length_le w hw hprefix := by
    obtain ⟨whole, hwhole, tail, htail, rfl⟩ := Language.mem_mul.mp hw
    have hdigits := (mem_plus_oneOf.mp hwhole).2
    rw [List.length_append]
    rcases htail with rfl | htail
    · exact Nat.add_le_add (length_le_run hdigits ((List.prefix_append _ _).trans hprefix))
        (Nat.zero_le n)
    · obtain ⟨rest, rfl⟩ := hprefix
      -- the tail begins where the run ends
      have hrun : run p (whole ++ tail ++ rest) = whole.length := by
        rw [List.append_assoc, run_append_of_forall hdigits]
        obtain ⟨c, tail, rfl, hc⟩ := hL tail htail
        rw [List.cons_append, run_cons_of_neg hc, Nat.add_zero]
      rw [hrun]
      refine Nat.add_le_add_left (h.length_le tail htail ?_) _
      rw [hrun, List.append_assoc, List.drop_left]
      exact List.prefix_append _ _

theorem longestIn_number (text : List Char) :
    LongestIn number.language text (number.longest text) := by
  have hdot : ∀ w ∈ just '.' * (oneOf isDigit * (oneOf isDigit)∗),
      ∃ c v, w = c :: v ∧ isDigit c = false := by
    intro w h
    obtain ⟨c, v, hc, -, rfl⟩ := mem_oneOf_mul.mp h
    exact ⟨c, v, rfl, by rw [eq_of_beq hc]; rfl⟩
  rw [longest]
  dsimp only
  split
  · next hzero =>
    refine ⟨fun h => absurd h (Nat.lt_irrefl 0), fun w hw h => ?_⟩
    obtain ⟨whole, hwhole, tail, -, rfl⟩ := Language.mem_mul.mp hw
    obtain ⟨hnil, hdigits⟩ := mem_plus_oneOf.mp hwhole
    have hle := length_le_run hdigits ((List.prefix_append _ _).trans h)
    exact absurd (List.length_eq_zero_iff.mp (Nat.le_zero.mp (hzero ▸ hle))) hnil
  · next hpos =>
    have hpos := Nat.pos_of_ne_zero hpos
    split
    · next rest hdrop =>
      split
      · next hzero =>
        refine longestIn_run_append (n := 0) hpos hdot ?_
        rw [hdrop]
        refine longestIn_cons_zero fun v hv _ h => ?_
        have hlength := (longestIn_plus isDigit rest).length_le v hv h
        exact (mem_plus_oneOf.mp hv).1
          (List.length_eq_zero_iff.mp (Nat.le_zero.mp (hzero ▸ hlength)))
      · next hfraction =>
        rw [Nat.add_assoc, Nat.add_comm 1]
        refine longestIn_run_append hpos hdot ?_
        rw [hdrop]
        have hplus := longestIn_plus isDigit rest
        exact longestIn_cons rfl (hplus.take_mem (Nat.pos_of_ne_zero hfraction)) hplus.length_le
    · next hdrop =>
      refine longestIn_run_append (n := 0) hpos hdot ?_
      cases h : text.drop (run isDigit text) with
      | nil =>
        refine ⟨fun h => absurd h (Nat.lt_irrefl 0), fun w hw h => ?_⟩
        rw [List.prefix_nil.mp h]
        exact Nat.le_refl 0
      | cons c rest =>
        refine longestIn_cons_zero fun v _ hc _ => hdrop rest ?_
        rw [h, eq_of_beq hc]

/-! #### Operators and brackets -/

/-- **The table.** An operator or a bracket of the table is a mark that stands alone, or one that an
equals sign may follow. -/
theorem isPunctuation_iff : isPunctuation w = true ↔ w ∈ punctuation.language := by
  constructor
  · intro h
    obtain ⟨kind, hkind⟩ := Option.isSome_iff_exists.mp h
    have hall : ∀ entry ∈ LoxInterpreter.punctuation,
        loneMarks.any (fun c => entry.1.toList == [c]) = true ∨
        leadingMarks.any (fun c => entry.1.toList == [c] || entry.1.toList == [c, '=']) = true := by
      decide
    have hw := hall _ (mem_of_lookup_eq_some hkind)
    rw [String.toList_ofList, List.any_eq_true, List.any_eq_true] at hw
    rcases hw with ⟨c, hc, hw⟩ | ⟨c, hc, hw⟩
    · exact Or.inl ⟨c, List.contains_iff_mem.mpr hc, eq_of_beq hw⟩
    · refine Or.inr (mem_oneOf_mul.mpr ⟨c, w.tail, List.contains_iff_mem.mpr hc, ?_⟩)
      rcases Bool.or_eq_true_iff.mp hw with hw | hw
      · rw [eq_of_beq hw]
        exact ⟨Or.inl rfl, rfl⟩
      · rw [eq_of_beq hw]
        exact ⟨Or.inr (mem_just.mpr rfl), rfl⟩
  · have hlone : loneMarks.all (fun c => isPunctuation [c]) = true := by decide
    have hleading : leadingMarks.all
        (fun c => isPunctuation [c] && isPunctuation [c, '=']) = true := by
      decide
    rintro (⟨c, hc, rfl⟩ | h)
    · exact List.all_eq_true.mp hlone c (List.contains_iff_mem.mp hc)
    · obtain ⟨c, v, hc, hv, rfl⟩ := mem_oneOf_mul.mp h
      have hboth := Bool.and_eq_true_iff.mp
        (List.all_eq_true.mp hleading c (List.contains_iff_mem.mp hc))
      rcases hv with rfl | hv
      · exact hboth.1
      · rw [mem_just.mp hv]
        exact hboth.2

theorem longestIn_punctuation (text : List Char) :
    LongestIn punctuation.language text (punctuation.longest text) := by
  -- a prefix in the language is the first character or the first two of them
  have hshort : ∀ w ∈ punctuation.language, w <+: text → isPunctuation w = true ∧
      (w = text.take 1 ∨ w = text.take 2) ∧ w.length ≤ 2 := by
    intro w hw h
    refine ⟨isPunctuation_iff.mpr hw, ?_⟩
    rw [List.prefix_iff_eq_take] at h
    rcases hw with ⟨c, -, rfl⟩ | hw
    · exact ⟨Or.inl h, by simp⟩
    · obtain ⟨c, v, -, hv, rfl⟩ := mem_oneOf_mul.mp hw
      rcases hv with rfl | hv
      · exact ⟨Or.inl h, by simp⟩
      · rw [mem_just.mp hv] at h ⊢
        exact ⟨Or.inr h, by simp⟩
  rcases text with _ | ⟨c, _ | ⟨d, rest⟩⟩
  · exact longestIn_nil punctuation
  · rw [longest]
    split
    · next h =>
      refine ⟨fun _ => isPunctuation_iff.mp h, fun w _ hw => hw.length_le⟩
    · next h =>
      refine ⟨fun hpos => absurd hpos (Nat.lt_irrefl 0), fun w hw hprefix => ?_⟩
      obtain ⟨hmem, rfl | rfl, -⟩ := hshort w hw hprefix <;> exact absurd hmem h
  · rw [longest]
    split
    · next h =>
      refine ⟨fun _ => isPunctuation_iff.mp h, fun w hw hprefix => ?_⟩
      exact (hshort w hw hprefix).2.2
    · next htwo =>
      split
      · next h =>
        refine ⟨fun _ => isPunctuation_iff.mp h, fun w hw hprefix => ?_⟩
        obtain ⟨hmem, rfl | rfl, -⟩ := hshort w hw hprefix
        · exact Nat.le_refl 1
        · exact absurd hmem htwo
      · next hone =>
        refine ⟨fun hpos => absurd hpos (Nat.lt_irrefl 0), fun w hw hprefix => ?_⟩
        obtain ⟨hmem, rfl | rfl, -⟩ := hshort w hw hprefix
        · exact absurd hmem hone
        · exact absurd hmem htwo

end Longest

/-- **What is computed for a pattern is the length of its longest match.** -/
theorem longestIn_longest (q : Pattern) (text : List Char) :
    LongestIn q.language text (q.longest text) := by
  cases q with
  | blank => exact longestIn_plus isBlank text
  | comment => exact longestIn_comment text
  | punctuation => exact longestIn_punctuation text
  | number => exact longestIn_number text
  | string =>
    cases text with
    | nil => exact longestIn_nil string
    | cons c rest => exact longestIn_string c rest
  | word =>
    cases text with
    | nil => exact longestIn_nil word
    | cons c rest =>
      rw [longest]
      exact longestIn_cons_kstar c rest
  | unterminated =>
    cases text with
    | nil => exact longestIn_nil unterminated
    | cons c rest =>
      rw [longest]
      exact longestIn_cons_kstar c rest
  | stray =>
    cases text with
    | nil => exact longestIn_nil stray
    | cons c rest =>
      refine ⟨fun _ => ⟨c, rfl, rfl⟩, fun w hw _ => ?_⟩
      obtain ⟨d, -, rfl⟩ := hw
      exact Nat.le_refl 1

/-! ### The competition -/

/-- **The rules of the competition.** The pattern matches a prefix of the text; no pattern matches a
longer prefix, and no pattern that is declared before matches this one. -/
structure Wins (q : Pattern) (w text : List Char) : Prop where
  front : w <+: text
  mem_language : w ∈ q.language
  longest : ∀ (r : Pattern) (v : List Char), v ∈ r.language → v <+: text → v.length ≤ w.length
  first : ∀ r : Pattern, w ∈ r.language → declared.idxOf q ≤ declared.idxOf r

theorem mem_declared (q : Pattern) : q ∈ declared := by
  cases q <;> decide

/-- At most one pattern wins, with one match. -/
theorem Wins.unique {q r : Pattern} {v w text : List Char} (hq : Wins q w text)
    (hr : Wins r v text) : q = r ∧ w = v := by
  have hlength := Nat.le_antisymm (hr.longest q w hq.mem_language hq.front)
    (hq.longest r v hr.mem_language hr.front)
  have hw : w = v :=
    (List.prefix_of_prefix_length_le hq.front hr.front (Nat.le_of_eq hlength)).eq_of_length hlength
  subst hw
  have hplace := Nat.le_antisymm (hq.first r hr.mem_language) (hr.first q hq.mem_language)
  exact ⟨(List.idxOf_inj (mem_declared q)).mp hplace, rfl⟩

/-- Who is the best of a candidate and some patterns: the candidate, if none of them matches more,
else the first of those that match most. -/
theorem foldl_better (text : List Char) (qs : List Pattern) (candidate : Pattern × Nat) :
    (qs.foldl (better text) candidate = candidate ∧ ∀ r ∈ qs, r.longest text ≤ candidate.2) ∨
    ∃ before q after, qs = before ++ q :: after ∧
      qs.foldl (better text) candidate = (q, q.longest text) ∧ candidate.2 < q.longest text ∧
      (∀ r ∈ before, r.longest text < q.longest text) ∧
      ∀ r ∈ after, r.longest text ≤ q.longest text := by
  induction qs generalizing candidate with
  | nil => exact Or.inl ⟨rfl, fun r hr => absurd hr List.not_mem_nil⟩
  | cons p qs ih =>
    rw [List.foldl_cons]
    by_cases hp : candidate.2 < p.longest text
    · have hbetter : better text candidate p = (p, p.longest text) := if_pos hp
      rw [hbetter]
      rcases ih (p, p.longest text) with
        ⟨heq, hle⟩ | ⟨before, q, after, rfl, heq, hlt, hbefore, hafter⟩
      · exact Or.inr ⟨[], p, qs, rfl, heq, hp, fun r hr => absurd hr List.not_mem_nil, hle⟩
      · refine Or.inr ⟨p :: before, q, after, rfl, heq, hp.trans hlt, ?_, hafter⟩
        exact List.forall_mem_cons.mpr ⟨hlt, hbefore⟩
    · have hbetter : better text candidate p = candidate := if_neg hp
      have hle := Nat.le_of_not_lt hp
      rw [hbetter]
      rcases ih candidate with ⟨heq, hrest⟩ | ⟨before, q, after, rfl, heq, hlt, hbefore, hafter⟩
      · exact Or.inl ⟨heq, List.forall_mem_cons.mpr ⟨hle, hrest⟩⟩
      · refine Or.inr ⟨p :: before, q, after, rfl, heq, hlt, ?_, hafter⟩
        exact List.forall_mem_cons.mpr ⟨Nat.lt_of_le_of_lt hle hlt, hbefore⟩

/-- The winner that is computed wins. -/
theorem wins_winner {text : List Char} (h : text ≠ []) :
    Wins (winner text).1 (text.take (winner text).2) text := by
  have hpos := winner_pos h
  rw [winner] at hpos ⊢
  rcases foldl_better text declared (stray, 0) with
    ⟨heq, -⟩ | ⟨before, q, after, hdeclared, heq, hq, hbefore, hafter⟩
  · rw [heq] at hpos
    exact absurd hpos (Nat.lt_irrefl 0)
  · rw [heq]
    have hlength : (text.take (q.longest text)).length = q.longest text :=
      List.length_take_of_le (longest_le q text)
    have hmost : ∀ r : Pattern, r.longest text ≤ q.longest text := by
      intro r
      have hr := mem_declared r
      rw [hdeclared] at hr
      rcases List.mem_append.mp hr with hr | hr
      · exact Nat.le_of_lt (hbefore r hr)
      · rcases List.mem_cons.mp hr with rfl | hr
        · exact Nat.le_refl _
        · exact hafter r hr
    refine ⟨List.take_prefix _ _, (longestIn_longest q text).take_mem hq, fun r v hv hprefix => ?_,
      fun r hr => ?_⟩
    · rw [hlength]
      exact ((longestIn_longest r text).length_le v hv hprefix).trans (hmost r)
    · -- whoever matches as much is not declared before
      have hle := (longestIn_longest r text).length_le _ hr (List.take_prefix _ _)
      rw [hlength] at hle
      have hr : r ∉ before := fun hr => absurd hle (Nat.not_le_of_lt (hbefore r hr))
      have hq : q ∉ before := fun hq => absurd (hbefore q hq) (Nat.lt_irrefl _)
      rw [hdeclared, List.idxOf_append_of_notMem hq, List.idxOf_append_of_notMem hr,
        List.idxOf_cons_self]
      exact Nat.le_add_right _ _

end Pattern

/-! ### The cut -/

/-- **The rules of the cut.** Piece by piece, a text falls apart into the matches of the patterns
that win on what is left of it. -/
inductive Cut : List Char → List Piece → Prop where
  | nil : Cut [] []
  | cons {q : Pattern} {w rest : List Char} {ps : List Piece} :
    q.Wins w (w ++ rest) → Cut rest ps → Cut (w ++ rest) (⟨q, w⟩ :: ps)

namespace Cut

variable {text : List Char} {ps qs : List Piece}

theorem ne_nil (h : Cut text ps) : ∀ piece ∈ ps, piece.text ≠ [] := by
  induction h with
  | nil => exact fun piece hpiece => absurd hpiece List.not_mem_nil
  | cons hwins _ ih =>
    exact List.forall_mem_cons.mpr ⟨Pattern.ne_nil_of_mem_language hwins.mem_language, ih⟩

/-- A text is cut in one way. -/
theorem unique (hps : Cut text ps) (hqs : Cut text qs) : ps = qs := by
  induction hps generalizing qs with
  | nil =>
    generalize htext : ([] : List Char) = text at hqs
    cases hqs with
    | nil => rfl
    | cons hwins _ =>
      obtain ⟨hnil, -⟩ := List.append_eq_nil_iff.mp htext.symm
      exact absurd hnil (Pattern.ne_nil_of_mem_language hwins.mem_language)
  | cons hwins hrest ih =>
    rename_i q w rest ps
    generalize htext : w ++ rest = text at hqs hwins
    cases hqs with
    | nil =>
      obtain ⟨hnil, -⟩ := List.append_eq_nil_iff.mp htext
      exact absurd hnil (Pattern.ne_nil_of_mem_language hwins.mem_language)
    | cons hwins' hrest' =>
      obtain ⟨rfl, rfl⟩ := hwins.unique hwins'
      obtain rfl := List.append_cancel_left htext
      rw [ih hrest']

end Cut

/-- Enough cuts follow the rules. -/
theorem cut_cutPieces {fuel : Nat} {text : List Char} (h : text.length ≤ fuel) :
    Cut text (cutPieces fuel text) := by
  induction fuel generalizing text with
  | zero =>
    obtain rfl := List.length_eq_zero_iff.mp (Nat.le_zero.mp h)
    exact .nil
  | succ fuel ih =>
    cases text with
    | nil => exact .nil
    | cons c rest =>
      simp only [cutPieces]
      have hpos := Pattern.winner_pos (List.cons_ne_nil c rest)
      have hwins := Pattern.wins_winner (List.cons_ne_nil c rest)
      generalize Pattern.winner (c :: rest) = won at hpos hwins ⊢
      have hrest : ((c :: rest).drop won.2).length ≤ fuel := by
        rw [List.length_drop]
        rw [List.length_cons] at h ⊢
        omega
      have hcut : Cut ((c :: rest).take won.2 ++ (c :: rest).drop won.2) _ :=
        .cons (by rwa [List.take_append_drop]) (ih hrest)
      rwa [List.take_append_drop] at hcut

/-- **There is one way to cut a text by the rules**, and that is how it is cut. -/
theorem cut_iff {text : List Char} {ps : List Piece} : Cut text ps ↔ ps = pieces text := by
  have hpieces : Cut text (pieces text) := cut_cutPieces (Nat.le_refl _)
  exact ⟨fun h => h.unique hpieces, fun h => h ▸ hpieces⟩

/-- A dot without a digit behind it is left out of the number, and a quote without another is no
string. -/
example : pieces "1.a\"".toList =
    [⟨.number, ['1']⟩, ⟨.punctuation, ['.']⟩, ⟨.word, ['a']⟩, ⟨.unterminated, ['"']⟩] := by
  decide

end LoxInterpreter
