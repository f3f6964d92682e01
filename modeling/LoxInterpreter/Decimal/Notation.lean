import LoxInterpreter.Decimal.Shortest

/-!
# How numbers are written

A record fixes the spelling decisions of a number format; `NumberFormat.write`
lays out the shortest decimal of a double by them. Two formats are in use:

* `NumberFormat.shown`, for the values of a program: whole numbers in full, `NaN`, `Infinity`;
* `NumberFormat.debug`, for tokens and tree nodes: always a fraction or an exponent, `nan`, `inf`.
-/

namespace LoxInterpreter

/-- The decisions of a number format. -/
structure NumberFormat where
  /-- Whole numbers are written in full, without point or exponent. -/
  wholeInFull : Bool
  /-- A positional number with no fraction still ends in `.0`. -/
  pointZero : Bool
  nan : String
  infinity : String

namespace NumberFormat

/-- The values of a running program: whole numbers in full, exactly. -/
def shown : NumberFormat := ⟨true, false, "NaN", "Infinity"⟩

/-- Tokens and tree nodes: every number has a fraction or an exponent. -/
def debug : NumberFormat := ⟨false, true, "nan", "inf"⟩

/-- A decimal with its point between its digits or next to them. -/
def positional (f : NumberFormat) (d : Decimal) : String :=
  let digits := toString d.digits
  if 0 ≤ d.exponent then
    digits ++ "".pushn '0' d.exponent.toNat ++ (if f.pointZero then ".0" else "")
  else
    let places := (-d.exponent).toNat
    let padded := "".pushn '0' (places + 1 - digits.length) ++ digits
    let whole := padded.length - places
    String.ofList (padded.toList.take whole) ++ "." ++ String.ofList (padded.toList.drop whole)

/-- A decimal with one digit before the point and a signed exponent of at least two digits. -/
def scientific (d : Decimal) : String :=
  let digits := (toString d.digits).toList
  let leading : Int := d.exponent + digits.length - 1
  let fraction := if digits.length ≤ 1 then "" else "." ++ String.ofList (digits.drop 1)
  let power := toString leading.natAbs
  String.ofList (digits.take 1) ++ fraction ++ "e" ++ (if leading < 0 then "-" else "+") ++
    "".pushn '0' (2 - power.length) ++ power

/-- A decimal is positional when its leading digit stands between the fourth place after the point
and the sixteenth before it, and scientific otherwise. -/
def layout (f : NumberFormat) (d : Decimal) : String :=
  let leading : Int := d.exponent + (toString d.digits).length - 1
  if -4 ≤ leading ∧ leading < 16 then f.positional d else scientific d

/-- The text of a finite double without its sign. -/
def magnitude (f : NumberFormat) (x : Binary) : String :=
  if x.significand = 0 then f.layout ⟨0, 0⟩
  else match f.wholeInFull, x.natural? with
    | true, some n => toString n
    | _, _ => f.layout x.shortest

/-- The text of a double. -/
def write (f : NumberFormat) (x : Float) : String :=
  if x.isNaN then f.nan
  else
    let bits := x.toBits
    let sign := if bits >>> 63 = 1 then "-" else ""
    sign ++ (if x.isInf then f.infinity else f.magnitude (Binary.ofBits bits))

end NumberFormat

end LoxInterpreter
