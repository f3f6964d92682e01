/-!
# White space

The characters that count as white space at the end of a line when it is quoted in a complaint.
This is a larger class than the blanks between tokens, which are `Lexicon.isBlank`.
-/

namespace LoxInterpreter

/-- White space in the wide sense: the separators and the white-space controls of Unicode. -/
def isWhiteSpace (c : Char) : Bool :=
  let n := c.toNat
  (0x09 ≤ n && n ≤ 0x0D) || (0x1C ≤ n && n ≤ 0x20) || n == 0x85 || n == 0xA0 || n == 0x1680 ||
    (0x2000 ≤ n && n ≤ 0x200A) || n == 0x2028 || n == 0x2029 || n == 0x202F || n == 0x205F ||
    n == 0x3000

/-- The text without the white space at its end. -/
def trimEnd (line : List Char) : List Char :=
  (line.reverse.dropWhile isWhiteSpace).reverse

end LoxInterpreter
