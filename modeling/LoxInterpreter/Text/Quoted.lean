/-!
# Quoted text

Text between quotes on one line. Single quotes are used unless the text holds a single quote and no
double one; the quote in use, the backslash and the control characters are escaped.
-/

namespace LoxInterpreter.Quoted

/-- The quote that surrounds a text. -/
def delimiter (s : List Char) : Char :=
  if '\'' ∈ s ∧ '"' ∉ s then '"' else '\''

/-- A number below 256 as two hexadecimal digits. -/
def hexByte (n : Nat) : List Char :=
  [Nat.digitChar (n / 16), Nat.digitChar (n % 16)]

/-- One character between the given quotes. -/
def escape (quote : Char) (c : Char) : List Char :=
  if c = quote ∨ c = '\\' then ['\\', c]
  else if c = '\n' then ['\\', 'n']
  else if c = '\r' then ['\\', 'r']
  else if c = '\t' then ['\\', 't']
  else if c.toNat < 32 ∨ c.toNat = 127 then '\\' :: 'x' :: hexByte c.toNat
  else [c]

/-- The text between quotes. -/
def encode (s : String) : String :=
  let quote := delimiter s.toList
  String.ofList (quote :: s.toList.flatMap (escape quote) ++ [quote])

/-- A list of quoted texts between brackets. -/
def encodeList (items : List String) : String :=
  "[" ++ ", ".intercalate (items.map encode) ++ "]"

end LoxInterpreter.Quoted
