import LoxInterpreter.Text.Blank

/-!
# Quoting a line of the source

A complaint shows the line it is about and underlines the place. Lines end at a line feed, at a
carriage return, or at the two together in that order; the break belongs to the line it ends.

* `Excerpt.locate` finds the line that holds an offset, and the column of the offset in it.
* `Excerpt.illustrate` draws the line with its number in the gutter and carets below.
-/

namespace LoxInterpreter

/-- A line of text, its break included, and a column in it. The column may lie past the end. -/
structure Excerpt where
  line : List Char
  column : Nat

namespace Excerpt

/-- The length of the first line, its break included, or nothing where the text has no break. `n`
counts the characters already passed. -/
def breakAfter? : List Char → Nat → Option Nat
  | [], _ => none
  | c :: rest, n =>
    if c = '\n' then some (n + 1)
    else if c = '\r' then some (if rest.head? = some '\n' then n + 2 else n + 1)
    else breakAfter? rest (n + 1)

/-- Walk over at most `fuel` lines that end at or before the offset. -/
def locateWithin : Nat → List Char → Nat → Excerpt
  | 0, text, offset => ⟨text, offset⟩
  | fuel + 1, text, offset =>
    match breakAfter? text 0 with
    | none => ⟨text, offset⟩
    | some n =>
      if n ≤ offset then locateWithin fuel (text.drop n) (offset - n) else ⟨text.take n, offset⟩

/-- The line that holds an offset. An offset past the end belongs to the last line. -/
def locate (text : String) (offset : Nat) : Excerpt :=
  locateWithin text.length text.toList offset

/-- A line number in the gutter: six wide, right-aligned, the place of a plus sign left blank. -/
def gutter (line : Int) : String :=
  let digits := if line < 0 then "-" ++ toString line.natAbs else " " ++ toString line.natAbs
  "".pushn ' ' (6 - digits.length) ++ digits ++ " |"

/-- The line, and below it carets of the given width from the column on. At least one caret is
drawn, and none past the end of the line but that one. Tabs before the column stay tabs, so that
the carets stand below what they mark. -/
def illustrate (e : Excerpt) (number : Int) (width : Int) (caption : String) : String :=
  let lead := (gutter number).toList
  let shown := lead ++ trimEnd e.line
  let blanks := (lead ++ e.line.take e.column).map fun c => if c = '\t' then c else ' '
  let room : Int := (e.line.length : Int) - e.column
  let carets := (max 1 (min width room)).toNat
  String.ofList shown ++ "\n" ++ String.ofList blanks ++ "".pushn '^' carets ++ " " ++ caption

end Excerpt

end LoxInterpreter
