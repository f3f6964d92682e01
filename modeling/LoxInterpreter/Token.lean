/-!
# Tokens

The currency between the scanner and everything after it. A token keeps its spelling and its place
in the text, because later passes blame their complaints on it.

* `TokenKind` enumerates the kinds; `TokenKind.name` is the name under which a kind is shown, and
  no two kinds share one (`TokenKind.ofName?_name`).
* `punctuation` and `keywords` are the two tables of fixed spellings.
-/

namespace LoxInterpreter

/-- The kinds of token. The reserved words carry the suffix `Word`. -/
inductive TokenKind where
  | leftParen | rightParen | leftBrace | rightBrace
  | comma | dot | minus | plus | semicolon | slash | star
  | bang | bangEqual | equal | equalEqual | greater | greaterEqual | less | lessEqual
  | identifier | string | number
  | andWord | classWord | elseWord | falseWord | funWord | forWord | ifWord | nilWord
  | orWord | printWord | returnWord | superWord | thisWord | trueWord | varWord | whileWord
  | endOfText
  deriving DecidableEq, Repr, Inhabited

namespace TokenKind

/-- The name under which a kind is shown. -/
def name : TokenKind → String
  | leftParen => "LEFT_PAREN"
  | rightParen => "RIGHT_PAREN"
  | leftBrace => "LEFT_BRACE"
  | rightBrace => "RIGHT_BRACE"
  | comma => "COMMA"
  | dot => "DOT"
  | minus => "MINUS"
  | plus => "PLUS"
  | semicolon => "SEMICOLON"
  | slash => "SLASH"
  | star => "STAR"
  | bang => "BANG"
  | bangEqual => "BANG_EQUAL"
  | equal => "EQUAL"
  | equalEqual => "EQUAL_EQUAL"
  | greater => "GREATER"
  | greaterEqual => "GREATER_EQUAL"
  | less => "LESS"
  | lessEqual => "LESS_EQUAL"
  | identifier => "IDENTIFIER"
  | string => "STRING"
  | number => "NUMBER"
  | andWord => "AND"
  | classWord => "CLASS"
  | elseWord => "ELSE"
  | falseWord => "FALSE"
  | funWord => "FUN"
  | forWord => "FOR"
  | ifWord => "IF"
  | nilWord => "NIL"
  | orWord => "OR"
  | printWord => "PRINT"
  | returnWord => "RETURN"
  | superWord => "SUPER"
  | thisWord => "THIS"
  | trueWord => "TRUE"
  | varWord => "VAR"
  | whileWord => "WHILE"
  | endOfText => "EOF"

/-- Every kind, once. -/
def all : List TokenKind :=
  [leftParen, rightParen, leftBrace, rightBrace, comma, dot, minus, plus, semicolon, slash, star,
    bang, bangEqual, equal, equalEqual, greater, greaterEqual, less, lessEqual,
    identifier, string, number,
    andWord, classWord, elseWord, falseWord, funWord, forWord, ifWord, nilWord,
    orWord, printWord, returnWord, superWord, thisWord, trueWord, varWord, whileWord, endOfText]

/-- The list of kinds is complete. -/
theorem mem_all (k : TokenKind) : k ∈ all := by
  cases k <;> decide

/-- The kind shown under a name. -/
def ofName? (s : String) : Option TokenKind :=
  all.find? (·.name == s)

/-- No two kinds are shown under one name. -/
theorem ofName?_name (k : TokenKind) : ofName? k.name = some k := by
  cases k <;> decide

end TokenKind

/-- The values that can be written down in a program. -/
inductive Literal where
  | nil
  | bool (value : Bool)
  | number (value : Float)
  | text (value : String)
  deriving DecidableEq, Inhabited

/-- One lexeme with what the later passes want to know about it. The line is 1-based and belongs to
the lexeme's last character; the offset is 0-based and belongs to its first. -/
structure Token where
  kind : TokenKind
  lexeme : String
  /-- The value of a number or string token, absent for all other kinds. -/
  literal : Option Literal
  line : Int
  offset : Nat
  deriving DecidableEq, Inhabited

/-- Operators and brackets by spelling. -/
def punctuation : List (String × TokenKind) :=
  [("(", .leftParen), (")", .rightParen), ("\x7b", .leftBrace), ("\x7d", .rightBrace),
    (",", .comma), (".", .dot), ("-", .minus), ("+", .plus), (";", .semicolon), ("*", .star),
    ("/", .slash), ("!", .bang), ("!=", .bangEqual), ("=", .equal), ("==", .equalEqual),
    ("<", .less), ("<=", .lessEqual), (">", .greater), (">=", .greaterEqual)]

/-- Reserved words by spelling. -/
def keywords : List (String × TokenKind) :=
  [("and", .andWord), ("class", .classWord), ("else", .elseWord), ("false", .falseWord),
    ("fun", .funWord), ("for", .forWord), ("if", .ifWord), ("nil", .nilWord), ("or", .orWord),
    ("print", .printWord), ("return", .returnWord), ("super", .superWord), ("this", .thisWord),
    ("true", .trueWord), ("var", .varWord), ("while", .whileWord)]

end LoxInterpreter
