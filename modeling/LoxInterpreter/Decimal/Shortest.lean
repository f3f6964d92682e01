/-!
# Shortest decimals of binary floating-point numbers

A finite double stands for all the reals that round to it. Among the decimals in that interval the
*shortest* is the one with the fewest digits, the nearest of those to the exact value, and on an
exact tie the one with an even last digit. Everything here is exact arithmetic on natural numbers.

* `Binary.ofBits` takes a finite double apart into `significand * 2 ^ exponent`.
* `Binary.readsBack` says whether a decimal lies in the interval of a double.
* `Binary.shortest` searches the decimal grids from coarse to fine.
* `Binary.natural?` is the exact value of an integral double.
-/

namespace LoxInterpreter

/-- A finite non-negative double: `significand * 2 ^ exponent`. -/
structure Binary where
  significand : Nat
  exponent : Int
  /-- The gap to the double below is half the gap to the double above. -/
  narrowBelow : Bool
  deriving DecidableEq

/-- A decimal: `digits * 10 ^ exponent`. -/
structure Decimal where
  digits : Nat
  exponent : Int
  deriving DecidableEq

namespace Binary

/-- A power of two, or one if the exponent is negative. -/
def twos (exponent : Int) : Nat := Nat.pow 2 exponent.toNat

/-- A power of ten, or one if the exponent is negative. -/
def tens (exponent : Int) : Nat := Nat.pow 10 exponent.toNat

/-- Take the magnitude of a finite double apart. NaN and the infinities are not finite: callers test
for them first. -/
def ofBits (bits : UInt64) : Binary :=
  let biased := (bits >>> 52).toNat % 2048
  let fraction := bits.toNat % twos 52
  if biased = 0 then ⟨fraction, -1074, false⟩
  else ⟨twos 52 + fraction, (biased : Int) - 1075, fraction == 0 && decide (1 < biased)⟩

/-- Compare `a * 10 ^ i` with `n * 2 ^ j`, exactly: negative powers are multiplied out. -/
def compareScaled (a : Nat) (i : Int) (n : Nat) (j : Int) : Ordering :=
  compare (a * tens i * twos (-j)) (n * twos j * tens (-i))

/-- The decimal lies among the reals that round to the double, to nearest and ties to even. The
ends of that interval belong to it exactly when the significand is even. -/
def readsBack (x : Binary) (d : Decimal) : Bool :=
  let low := if x.narrowBelow then 4 * x.significand - 1 else 4 * x.significand - 2
  let high := 4 * x.significand + 2
  let closed := x.significand % 2 == 0
  let fromLow := compareScaled d.digits d.exponent low (x.exponent - 2)
  let fromHigh := compareScaled d.digits d.exponent high (x.exponent - 2)
  (fromLow == .gt || (closed && fromLow == .eq)) && (fromHigh == .lt || (closed && fromHigh == .eq))

/-- The least power of ten above the double is `10 ^ scale`: an estimate from the binary logarithm,
corrected by at most two steps up. -/
def scale (x : Binary) : Int :=
  let bits : Int := Nat.log2 x.significand + x.exponent
  let estimate := (bits * 30103).fdiv 100000
  let below (k : Int) : Bool := compareScaled 1 k x.significand x.exponent == .gt
  if below estimate then estimate
  else if below (estimate + 1) then estimate + 1
  else estimate + 2

/-- The value in units of `10 ^ grid`, rounded down. -/
def floorOnGrid (x : Binary) (grid : Int) : Nat :=
  (x.significand * twos x.exponent * tens (-grid)) / (twos (-x.exponent) * tens grid)

/-- The better of the double's two neighbours on a decimal grid, if one of them reads back. -/
def onGrid? (x : Binary) (grid : Int) : Option Decimal :=
  let floor := x.floorOnGrid grid
  let below : Decimal := ⟨floor, grid⟩
  let above : Decimal := ⟨floor + 1, grid⟩
  match x.readsBack below, x.readsBack above with
  | true, false => some below
  | false, true => some above
  | false, false => none
  | true, true =>
    match compareScaled (2 * floor + 1) grid (2 * x.significand) x.exponent with
    | .gt => some below
    | .lt => some above
    | .eq => some (if floor % 2 = 0 then below else above)

/-- Move trailing zeros of the digits into the exponent, at most `fuel` of them. -/
def stripZeros : Nat → Decimal → Decimal
  | 0, d => d
  | fuel + 1, d =>
    if d.digits ≠ 0 ∧ d.digits % 10 = 0 then stripZeros fuel ⟨d.digits / 10, d.exponent + 1⟩ else d

/-- The exact value as a decimal. -/
def exact (x : Binary) : Decimal :=
  if 0 ≤ x.exponent then ⟨x.significand * twos x.exponent, 0⟩
  else ⟨x.significand * (tens (-x.exponent) / twos (-x.exponent)), x.exponent⟩

/-- The shortest decimal of a positive double. Seventeen digits are always enough. -/
def shortest (x : Binary) : Decimal :=
  let top := x.scale
  let found := (List.range 17).findSome? fun (n : Nat) => x.onGrid? (top - (n + 1 : Nat))
  stripZeros 400 (found.getD x.exact)

/-- The exact value of a double that is a natural number. -/
def natural? (x : Binary) : Option Nat :=
  if 0 ≤ x.exponent then some (x.significand * twos x.exponent)
  else
    let unit := twos (-x.exponent)
    if x.significand % unit = 0 then some (x.significand / unit) else none

end Binary

end LoxInterpreter
