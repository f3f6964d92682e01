import LoxInterpreter.Tree.Render
import Mathlib.Data.List.TakeWhile

/-!
# Parenthesised text

The text of a tree is made of words, of quoted text, and of lists in parentheses. Such a text can be
read in one way only, whatever the words mean.

* `Form` is the structure of such a text, and `Form.text` the text. In a well-formed one words have
  no blank, parenthesis or quote in them, and quoted text has no quote.
* `Form.readable` is unique readability, with something behind the text that does not carry a word
  on; `Form.text_injective` is what follows for whole texts.
-/

namespace LoxInterpreter

/-- The structure of parenthesised text. -/
inductive Form where
  | word (spelling : String)
  | quoted (text : String)
  | list (parts : List Form)

instance : Inhabited Form := ⟨.list []⟩

namespace Form

/-- The characters that separate words. -/
def separators : List Char := [' ', '(', ')', '"']

mutual

/-- The text of a form. -/
def text : Form → String
  | .word spelling => spelling
  | .quoted text => "\"" ++ text ++ "\""
  | .list parts => parenthesize (texts parts)

/-- The texts of several forms. -/
def texts : List Form → List String
  | [] => []
  | f :: rest => f.text :: texts rest

end

/-- A text that can stand for itself: not empty, and without separators. -/
def IsWord (spelling : String) : Prop :=
  spelling.toList ≠ [] ∧ ∀ c ∈ spelling.toList, c ∉ separators

mutual

/-- Words are words, and quoted text ends where its quote does. -/
def WellFormed : Form → Prop
  | .word spelling => IsWord spelling
  | .quoted text => '"' ∉ text.toList
  | .list parts => AllWellFormed parts

/-- The forms are well-formed. -/
def AllWellFormed : List Form → Prop
  | [] => True
  | f :: rest => f.WellFormed ∧ AllWellFormed rest

end

/-! ### Characters -/

/-- Words between parentheses, from the first word on. -/
def between : List Form → List Char
  | [] => []
  | f :: rest => ' ' :: f.text.toList ++ between rest

theorem toList_intercalate (f : Form) (parts : List Form) :
    (" ".intercalate (texts (f :: parts))).toList = f.text.toList ++ between parts := by
  induction parts generalizing f with
  | nil => simp [texts, between]
  | cons g parts ih =>
    have hcons : " ".intercalate (texts (f :: g :: parts)) =
        f.text ++ " " ++ " ".intercalate (texts (g :: parts)) := by
      simp [texts]
    rw [hcons, String.toList_append, String.toList_append, ih, between]
    simp

theorem toList_text_list_nil : (list []).text.toList = ['(', ')'] := by
  simp [text, texts, parenthesize]

theorem toList_text_list_cons (f : Form) (parts : List Form) :
    (list (f :: parts)).text.toList = '(' :: f.text.toList ++ between parts ++ [')'] := by
  rw [text, parenthesize, String.toList_append, String.toList_append, toList_intercalate]
  simp

/-- A list begins with its parenthesis. -/
theorem toList_text_list (parts : List Form) : ∃ cs, (list parts).text.toList = '(' :: cs := by
  cases parts with
  | nil => exact ⟨_, toList_text_list_nil⟩
  | cons f parts => exact ⟨_, toList_text_list_cons f parts⟩

theorem toList_text_quoted (s : String) : (quoted s).text.toList = '"' :: s.toList ++ ['"'] := by
  simp [text]

/-- A well-formed form does not begin with a blank or a closing parenthesis. -/
theorem WellFormed.head {f : Form} (h : f.WellFormed) :
    ∃ c rest, f.text.toList = c :: rest ∧ c ≠ ' ' ∧ c ≠ ')' := by
  cases f with
  | word spelling =>
    obtain ⟨hne, hall⟩ := h
    obtain ⟨c, rest, hcons⟩ := List.exists_cons_of_ne_nil hne
    have hc := hall c (by simp [hcons])
    refine ⟨c, rest, hcons, ?_, ?_⟩
    · rintro rfl
      exact hc (by decide)
    · rintro rfl
      exact hc (by decide)
  | quoted s => exact ⟨'"', _, toList_text_quoted s, by decide, by decide⟩
  | list parts =>
    obtain ⟨cs, hcons⟩ := toList_text_list parts
    exact ⟨'(', cs, hcons, by decide, by decide⟩

/-! ### Unique readability -/

/-- What comes next does not carry a word on. -/
def Stops (rest : List Char) : Prop := ∀ c ∈ rest.head?, c ∈ separators

theorem stops_between {parts : List Form} {rest : List Char} :
    Stops (between parts ++ ')' :: rest) := by
  cases parts <;> simp [Stops, between, separators]

/-- Words end where something comes that does not carry them on. -/
theorem word_eq_of_append_eq {a b rest rest' : List Char} (ha : ∀ c ∈ a, c ∉ separators)
    (hb : ∀ c ∈ b, c ∉ separators) (hrest : Stops rest) (hrest' : Stops rest')
    (h : a ++ rest = b ++ rest') : a = b ∧ rest = rest' := by
  have htake {a rest : List Char} (ha : ∀ c ∈ a, c ∉ separators) (hrest : Stops rest) :
      (a ++ rest).takeWhile (· ∉ separators) = a := by
    rw [List.takeWhile_append_of_pos (by simpa using ha)]
    cases rest with
    | nil => simp
    | cons c rest => rw [List.takeWhile_cons_of_neg (by simpa using hrest c rfl), List.append_nil]
  have heq : a = b := by rw [← htake ha hrest, ← htake hb hrest', h]
  exact ⟨heq, List.append_cancel_left (heq ▸ h)⟩

/-- A separator is no part of a word. -/
theorem not_word_of_append_eq {spelling : String} {c : Char} {rest rest' : List Char}
    (h : IsWord spelling) (hc : c ∈ separators) : spelling.toList ++ rest ≠ c :: rest' := by
  obtain ⟨d, ds, hcons⟩ := List.exists_cons_of_ne_nil h.1
  intro heq
  rw [hcons] at heq
  exact h.2 d (by simp [hcons]) ((List.cons.inj heq).1 ▸ hc)

/-- Quoted text ends at the next quote. -/
theorem quoted_eq_of_append_eq {a b : String} {rest rest' : List Char} (ha : '"' ∉ a.toList)
    (hb : '"' ∉ b.toList)
    (h : (quoted a).text.toList ++ rest = (quoted b).text.toList ++ rest') :
    quoted a = quoted b ∧ rest = rest' := by
  have htake {a rest : List Char} (ha : '"' ∉ a) :
      (a ++ '"' :: rest).takeWhile (· ≠ '"') = a := by
    rw [List.takeWhile_append_of_pos fun c hc => decide_eq_true (ne_of_mem_of_not_mem hc ha),
      List.takeWhile_cons_of_neg (by simp), List.append_nil]
  rw [toList_text_quoted, toList_text_quoted] at h
  have hinside : a.toList ++ '"' :: rest = b.toList ++ '"' :: rest' := by
    simpa using h
  have heq : a.toList = b.toList := by rw [← htake ha, ← htake hb, hinside]
  rw [heq] at hinside
  exact ⟨congrArg quoted (String.toList_inj.mp heq), (List.cons.inj
    (List.append_cancel_left hinside)).2⟩

mutual

/-- **Unique readability.** A text that begins with a well-formed form does so in one way only. -/
theorem readable : ∀ {f g : Form} {rest rest' : List Char}, f.WellFormed → g.WellFormed →
    Stops rest → Stops rest' → f.text.toList ++ rest = g.text.toList ++ rest' → f = g ∧ rest = rest'
  | .word a, .word b, rest, rest', ha, hb, hrest, hrest', h => by
    obtain ⟨heq, htail⟩ := word_eq_of_append_eq ha.2 hb.2 hrest hrest' h
    exact ⟨congrArg word (String.toList_inj.mp heq), htail⟩
  | .quoted a, .quoted b, rest, rest', ha, hb, _, _, h => quoted_eq_of_append_eq ha hb h
  | .list [], .list [], rest, rest', _, _, _, _, h => by
    rw [toList_text_list_nil] at h
    exact ⟨rfl, List.append_cancel_left h⟩
  | .list (f :: parts), .list (g :: parts'), rest, rest', hf, hg, _, _, h => by
    rw [toList_text_list_cons, toList_text_list_cons] at h
    have hinside : f.text.toList ++ (between parts ++ ')' :: rest) =
        g.text.toList ++ (between parts' ++ ')' :: rest') := by
      simpa using h
    obtain ⟨rfl, htail⟩ := readable hf.1 hg.1 stops_between stops_between hinside
    obtain ⟨rfl, hbehind⟩ := readable_between hf.2 hg.2 htail
    exact ⟨rfl, hbehind⟩
  | .list [], .list (g :: parts), rest, rest', _, hg, _, _, h => by
    -- the list is not empty, and what stands in it does not begin with the parenthesis
    obtain ⟨c, cs, hcons, -, hc⟩ := hg.1.head
    rw [toList_text_list_nil, toList_text_list_cons, hcons] at h
    exact absurd (List.cons.inj (List.cons.inj h).2).1.symm hc
  | .list (f :: parts), .list [], rest, rest', hf, _, _, _, h => by
    obtain ⟨c, cs, hcons, -, hc⟩ := hf.1.head
    rw [toList_text_list_nil, toList_text_list_cons, hcons] at h
    exact absurd (List.cons.inj (List.cons.inj h).2).1 hc
  | .word a, .quoted b, rest, rest', ha, _, _, _, h => by
    rw [toList_text_quoted] at h
    exact absurd h (not_word_of_append_eq ha (by decide))
  | .quoted a, .word b, rest, rest', _, hb, _, _, h => by
    rw [toList_text_quoted] at h
    exact absurd h.symm (not_word_of_append_eq hb (by decide))
  | .word a, .list parts, rest, rest', ha, _, _, _, h => by
    obtain ⟨cs, hcons⟩ := toList_text_list parts
    rw [hcons] at h
    exact absurd h (not_word_of_append_eq ha (by decide))
  | .list parts, .word b, rest, rest', _, hb, _, _, h => by
    obtain ⟨cs, hcons⟩ := toList_text_list parts
    rw [hcons] at h
    exact absurd h.symm (not_word_of_append_eq hb (by decide))
  | .quoted a, .list parts, rest, rest', _, _, _, _, h => by
    obtain ⟨cs, hcons⟩ := toList_text_list parts
    rw [hcons, toList_text_quoted] at h
    exact absurd (List.cons.inj h).1 (by decide)
  | .list parts, .quoted b, rest, rest', _, _, _, _, h => by
    obtain ⟨cs, hcons⟩ := toList_text_list parts
    rw [hcons, toList_text_quoted] at h
    exact absurd (List.cons.inj h).1 (by decide)

/-- The parts of a list are told by the closing parenthesis behind them. -/
theorem readable_between : ∀ {parts parts' : List Form} {rest rest' : List Char},
    AllWellFormed parts → AllWellFormed parts' →
    between parts ++ ')' :: rest = between parts' ++ ')' :: rest' → parts = parts' ∧ rest = rest'
  | [], [], rest, rest', _, _, h => ⟨rfl, (List.cons.inj h).2⟩
  | [], g :: parts, rest, rest', _, _, h => absurd (List.cons.inj h).1 (by decide)
  | f :: parts, [], rest, rest', _, _, h => absurd (List.cons.inj h).1 (by decide)
  | f :: parts, g :: parts', rest, rest', hf, hg, h => by
    have hinside : f.text.toList ++ (between parts ++ ')' :: rest) =
        g.text.toList ++ (between parts' ++ ')' :: rest') := by
      simpa [between] using h
    obtain ⟨rfl, htail⟩ := readable hf.1 hg.1 stops_between stops_between hinside
    obtain ⟨rfl, hbehind⟩ := readable_between hf.2 hg.2 htail
    exact ⟨rfl, hbehind⟩

end

/-- **A well-formed form is known from its text.** -/
theorem text_injective {f g : Form} (hf : f.WellFormed) (hg : g.WellFormed)
    (h : f.text = g.text) : f = g := by
  have hstops : Stops [] := nofun
  exact (readable hf hg hstops hstops (by rw [h])).1

end Form

end LoxInterpreter
