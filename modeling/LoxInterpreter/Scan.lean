import LoxInterpreter.Lexicon

/-!
# From text to tokens

`scan` cuts a text into pieces, gives every piece its place, and reads tokens and mistakes off
them. Blanks and comments leave nothing behind; a mistake leaves no token, and scanning carries on
after it.
-/

namespace LoxInterpreter

/-- What can be wrong with a text before there is any token to blame. -/
inductive LexicalError where
  | unterminatedString
  | unexpectedCharacter
  deriving DecidableEq, Repr

/-- The wording of a lexical error. -/
def LexicalError.message : LexicalError → String
  | unterminatedString => "Unterminated string."
  | unexpectedCharacter => "Unexpected character."

/-- A lexical error and the place to blame. -/
structure LexicalMistake where
  cause : LexicalError
  line : Nat
  offset : Nat
  deriving DecidableEq, Repr

/-- How far a reader has come: characters passed, and line feeds among them. -/
structure Position where
  offset : Nat
  feeds : Nat
  deriving DecidableEq, Repr

namespace Position

/-- The beginning of a text. -/
def start : Position := ⟨0, 0⟩

/-- The position after some more text. -/
def advance (p : Position) (text : List Char) : Position :=
  ⟨p.offset + text.length, p.feeds + text.count '\n'⟩

/-- The 1-based number of the line that goes on here. -/
def line (p : Position) : Nat := p.feeds + 1

/-- No text leads nowhere. -/
@[simp]
theorem advance_nil (p : Position) : p.advance [] = p := by
  simp [advance]

/-- Two texts in a row lead as far as the one after the other. -/
@[simp]
theorem advance_append (p : Position) (a b : List Char) :
    p.advance (a ++ b) = (p.advance a).advance b := by
  simp [advance, Nat.add_assoc]

end Position

/-- A piece at its place in the text. -/
structure PlacedPiece extends Piece where
  start : Position
  deriving DecidableEq

/-- Give consecutive pieces their places. -/
def placePieces (p : Position) : List Piece → List PlacedPiece
  | [] => []
  | piece :: rest => ⟨piece, p⟩ :: placePieces (p.advance piece.text) rest

/-- Pieces are the same wherever they are placed. -/
@[simp]
theorem map_toPiece_placePieces (p : Position) (placed : List Piece) :
    (placePieces p placed).map PlacedPiece.toPiece = placed := by
  induction placed generalizing p with
  | nil => rfl
  | cons piece rest ih => simp [placePieces, ih]

/-- The number that digits with an optional fraction spell. -/
def readNumber (text : List Char) : Float :=
  let whole := text.takeWhile Pattern.isDigit
  let fraction := (text.drop (whole.length + 1)).takeWhile Pattern.isDigit
  let digits := (whole ++ fraction).foldl (fun n c => 10 * n + (c.toNat - '0'.toNat)) 0
  Float.ofScientific digits true fraction.length

namespace PlacedPiece

/-- The token of a piece. Its line is that of the last character, so that a string with line breaks
in it belongs to the line where it ends. -/
def token? (p : PlacedPiece) : Option Token :=
  let lexeme := String.ofList p.text
  let line := (p.start.advance p.text.dropLast).line
  let make (kind : TokenKind) (literal : Option Literal) : Token :=
    ⟨kind, lexeme, literal, line, p.start.offset⟩
  match p.pattern with
  | .punctuation => (punctuation.lookup lexeme).map (make · none)
  | .number => some (make .number (some (.number (readNumber p.text))))
  | .string => some (make .string (some (.text (String.ofList (p.text.drop 1).dropLast))))
  | .word => some (make ((keywords.lookup lexeme).getD .identifier) none)
  | .blank | .comment | .unterminated | .stray => none

/-- The mistake of a piece. A string without an end is blamed on its first character, in the line
where the text ends. -/
def mistake? (p : PlacedPiece) : Option LexicalMistake :=
  match p.pattern with
  | .unterminated =>
    some ⟨.unterminatedString, (p.start.advance p.text).line, p.start.offset⟩
  | .stray => some ⟨.unexpectedCharacter, p.start.line, p.start.offset⟩
  | _ => none

end PlacedPiece

/-- What scanning a text yields. -/
structure Scan where
  tokens : List Token
  /-- The token that stands for the end of the text. -/
  endToken : Token
  mistakes : List LexicalMistake
  deriving DecidableEq

/-- Scan a text. -/
def scan (text : String) : Scan :=
  let placed := placePieces .start (pieces text.toList)
  let finish := Position.start.advance text.toList
  { tokens := placed.filterMap PlacedPiece.token?
    endToken := ⟨.endOfText, "", none, finish.line, finish.offset⟩
    mistakes := placed.filterMap PlacedPiece.mistake? }

end LoxInterpreter
