import LoxInterpreter.Token

/-!
# The lexicon

The patterns of the language, and the rule by which they compete: at every place the longest match
wins, and of equally long ones the pattern declared first.

* `Pattern` enumerates the patterns in the order of their declaration, `Pattern.declared`.
* `Pattern.longest` is the length of the longest prefix of a text that a pattern matches.
* `pieces` cuts a text into the winning pieces. Since `Pattern.stray` matches any one character, no
  piece is empty (`Pattern.winner_pos`), and the pieces make up the text (`flatMap_pieces`).
-/

namespace LoxInterpreter

/-- The patterns, in the order of their declaration. -/
inductive Pattern where
  /-- Space between tokens. -/
  | blank
  /-- Two slashes and the rest of the line. -/
  | comment
  /-- An operator or a bracket. -/
  | punctuation
  /-- Digits, with an optional fraction that has at least one digit. -/
  | number
  /-- Text between double quotes, line breaks included. -/
  | string
  /-- A name or a reserved word. -/
  | word
  /-- A double quote and what follows it, as far as there is no other. -/
  | unterminated
  /-- Any one character. Declared last, it wins only where nothing else matches. -/
  | stray
  deriving DecidableEq, Repr

namespace Pattern

/-- Every pattern in the order of declaration. -/
def declared : List Pattern :=
  [blank, comment, punctuation, number, string, word, unterminated, stray]

/-- Tab, line feed, vertical tab, form feed, carriage return and space separate tokens. -/
def isBlank (c : Char) : Bool := (9 ≤ c.toNat && c.toNat ≤ 13) || c == ' '

/-- A comment runs up to the first line feed, vertical tab, form feed or carriage return. -/
def isInline (c : Char) : Bool := !(10 ≤ c.toNat && c.toNat ≤ 13)

/-- The digits of numbers and names are the ten ASCII ones. -/
def isDigit (c : Char) : Bool := '0' ≤ c && c ≤ '9'

/-- A word starts with an ASCII letter or an underscore. -/
def isWordStart (c : Char) : Bool := ('a' ≤ c && c ≤ 'z') || ('A' ≤ c && c ≤ 'Z') || c == '_'

/-- A word goes on with letters, digits and underscores. -/
def isWordPart (c : Char) : Bool := isWordStart c || isDigit c

/-- The double quote, which opens and closes a string. -/
def isQuote (c : Char) : Bool := c.toNat == 34

/-- The length of the longest prefix whose characters all satisfy a test. -/
def run (p : Char → Bool) (text : List Char) : Nat := (text.takeWhile p).length

/-- No prefix is longer than the text. -/
theorem run_le (p : Char → Bool) (text : List Char) : run p text ≤ text.length :=
  (List.takeWhile_sublist p).length_le

/-- Some operator or bracket has this spelling. -/
def isPunctuation (spelling : List Char) : Bool :=
  (LoxInterpreter.punctuation.lookup (String.ofList spelling)).isSome

/-- The length of the longest prefix of the text that the pattern matches, zero if there is none.
No pattern matches the empty text. -/
def longest : Pattern → List Char → Nat
  | blank, text => run isBlank text
  | comment, '/' :: '/' :: rest => 2 + run isInline rest
  | comment, _ => 0
  | punctuation, c :: d :: _ =>
    if isPunctuation [c, d] then 2 else if isPunctuation [c] then 1 else 0
  | punctuation, [c] => if isPunctuation [c] then 1 else 0
  | punctuation, [] => 0
  | number, text =>
    let whole := run isDigit text
    if whole = 0 then 0
    else match text.drop whole with
      | '.' :: rest =>
        let fraction := run isDigit rest
        if fraction = 0 then whole else whole + 1 + fraction
      | _ => whole
  | string, c :: rest =>
    if isQuote c then
      let inside := run (fun d => !isQuote d) rest
      if inside < rest.length then inside + 2 else 0
    else 0
  | string, [] => 0
  | word, c :: rest => if isWordStart c then 1 + run isWordPart rest else 0
  | word, [] => 0
  | unterminated, c :: rest => if isQuote c then 1 + run (fun d => !isQuote d) rest else 0
  | unterminated, [] => 0
  | stray, _ :: _ => 1
  | stray, [] => 0

/-- How long a text is of which a part has been dropped and another character follows. -/
theorem length_of_drop_eq_cons {n : Nat} {text rest : List Char} {c : Char}
    (h : text.drop n = c :: rest) : text.length = n + 1 + rest.length := by
  have := congrArg List.length h
  simp only [List.length_drop, List.length_cons] at this
  omega

/-- No pattern matches more than there is. -/
theorem longest_le (p : Pattern) (text : List Char) : p.longest text ≤ text.length := by
  fun_cases longest p text <;> grind [run_le, → length_of_drop_eq_cons]

/-- The better of a candidate and a later pattern: only a longer match displaces an earlier one. -/
def better (text : List Char) (candidate : Pattern × Nat) (p : Pattern) : Pattern × Nat :=
  let n := p.longest text
  if candidate.2 < n then (p, n) else candidate

/-- The pattern that wins on a text, with the length of its match. -/
def winner (text : List Char) : Pattern × Nat :=
  declared.foldl (better text) (stray, 0)

/-- A comparison never makes the match shorter, and it is at least as long as the later pattern's
in the end. -/
theorem le_better (text : List Char) (candidate : Pattern × Nat) (p : Pattern) :
    candidate.2 ≤ (better text candidate p).2 ∧ p.longest text ≤ (better text candidate p).2 := by
  grind [better]

/-- The winner's match is no longer than the text. -/
theorem winner_le (text : List Char) : (winner text).2 ≤ text.length := by
  simp only [winner, declared, List.foldl_cons, List.foldl_nil]
  grind [better, longest_le]

/-- **Progress.** Something matches wherever there is a character left, if only `stray`. -/
theorem winner_pos {text : List Char} (h : text ≠ []) : 0 < (winner text).2 := by
  obtain ⟨c, rest, rfl⟩ := List.exists_cons_of_ne_nil h
  exact (le_better (c :: rest) ([blank, comment, punctuation, number, string, word,
    unterminated].foldl (better (c :: rest)) (stray, 0)) stray).2

end Pattern

/-- A stretch of text with the pattern that claimed it. -/
structure Piece where
  pattern : Pattern
  text : List Char
  deriving DecidableEq

/-- Cut at most `fuel` pieces off a text. -/
def cutPieces : Nat → List Char → List Piece
  | 0, _ => []
  | _, [] => []
  | fuel + 1, text =>
    let (pattern, n) := Pattern.winner text
    ⟨pattern, text.take n⟩ :: cutPieces fuel (text.drop n)

/-- The pieces of a text. No piece is empty, so there are at most as many as characters. -/
def pieces (text : List Char) : List Piece := cutPieces text.length text

/-- As many cuts as there are characters are enough. -/
theorem flatMap_cutPieces (fuel : Nat) (text : List Char) (h : text.length ≤ fuel) :
    (cutPieces fuel text).flatMap Piece.text = text := by
  induction fuel generalizing text with
  | zero => simp_all [cutPieces]
  | succ fuel ih =>
    match text with
    | [] => rfl
    | c :: rest =>
      have := Pattern.winner_pos (List.cons_ne_nil c rest)
      have hl : ((c :: rest).drop (Pattern.winner (c :: rest)).2).length ≤ fuel := by
        simp only [List.length_drop, List.length_cons] at *
        omega
      simp only [cutPieces, List.flatMap_cons, ih _ hl, List.take_append_drop]

/-- **Nothing is lost.** The pieces of a text make up the text. -/
theorem flatMap_pieces (text : List Char) : (pieces text).flatMap Piece.text = text :=
  flatMap_cutPieces text.length text (Nat.le_refl _)

end LoxInterpreter
