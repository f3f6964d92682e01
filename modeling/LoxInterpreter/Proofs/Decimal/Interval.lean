import LoxInterpreter.Decimal.Shortest
import Mathlib.Algebra.Order.Field.Basic
import Mathlib.Algebra.Order.Field.Rat
import Mathlib.Data.Rat.Cast.Order
import Mathlib.Tactic.FieldSimp
import Mathlib.Tactic.Linarith
import Mathlib.Tactic.Positivity
import Mathlib.Tactic.Ring

/-!
# Doubles and the numbers that round to them

A finite double is told apart from all others by any number in its interval.

* `Binary.Covers x v` says that the rational number `v` lies in the interval of `x`; a decimal reads
  back exactly if its value does (`readsBack_iff`).
* The intervals of two canonical doubles have no number in common (`Canonical.eq_of_covers`): where
  they touch, one of the significands is odd.
* `covers_shortest`: the shortest decimal lies in the interval.
* `ofBits_eq_ofBits_iff`: the bits below the sign are known from the double.
-/

namespace LoxInterpreter

/-- The number that a decimal denotes. -/
def Decimal.value (d : Decimal) : ℚ := d.digits * 10 ^ d.exponent

namespace Binary

/-- The number that a double denotes. -/
def value (x : Binary) : ℚ := x.significand * 2 ^ x.exponent

/-! ### Comparing decimals with doubles -/

theorem ten_zpow_eq (i : ℤ) : (10 : ℚ) ^ i = tens i / tens (-i) := by
  obtain ⟨n, rfl | rfl⟩ := i.eq_nat_or_neg <;> simp [tens]

theorem two_zpow_eq (j : ℤ) : (2 : ℚ) ^ j = twos j / twos (-j) := by
  obtain ⟨n, rfl | rfl⟩ := j.eq_nat_or_neg <;> simp [twos]

theorem tens_pos (i : ℤ) : 0 < tens i := Nat.pow_pos (by decide)

theorem twos_pos (j : ℤ) : 0 < twos j := Nat.pow_pos (by decide)

/-- Multiplying out negative powers does not change how two numbers compare. -/
theorem compareScaled_eq (a : ℕ) (i : ℤ) (n : ℕ) (j : ℤ) :
    compareScaled a i n j = compare ((a : ℚ) * 10 ^ i) (n * 2 ^ j) := by
  have hten : (0 : ℚ) < tens (-i) := by exact_mod_cast tens_pos (-i)
  have htwo : (0 : ℚ) < twos (-j) := by exact_mod_cast twos_pos (-j)
  have hlt : a * tens i * twos (-j) < n * twos j * tens (-i) ↔ (a : ℚ) * 10 ^ i < n * 2 ^ j := by
    rw [ten_zpow_eq, two_zpow_eq, ← mul_div_assoc, ← mul_div_assoc, div_lt_div_iff₀ hten htwo]
    exact_mod_cast Iff.rfl
  have heq : a * tens i * twos (-j) = n * twos j * tens (-i) ↔ (a : ℚ) * 10 ^ i = n * 2 ^ j := by
    rw [ten_zpow_eq, two_zpow_eq, ← mul_div_assoc, ← mul_div_assoc,
      div_eq_div_iff hten.ne' htwo.ne']
    exact_mod_cast Iff.rfl
  rw [compareScaled]
  rcases lt_trichotomy ((a : ℚ) * 10 ^ i) (n * 2 ^ j) with h | h | h
  · rw [compare_lt_iff_lt.mpr h, compare_lt_iff_lt.mpr (hlt.mpr h)]
  · rw [compare_eq_iff_eq.mpr h, compare_eq_iff_eq.mpr (heq.mpr h)]
  · refine (compare_gt_iff_gt.mpr ?_).trans (compare_gt_iff_gt.mpr h).symm
    exact lt_of_le_of_ne (not_lt.mp fun h' => h.asymm (hlt.mp h')) fun h' => h.ne' (heq.mp h'.symm)

/-- The lower end of the interval of a double, in quarters of its unit. -/
def low (x : Binary) : ℕ := if x.narrowBelow then 4 * x.significand - 1 else 4 * x.significand - 2

/-- The upper end of the interval of a double, in quarters of its unit. -/
def high (x : Binary) : ℕ := 4 * x.significand + 2

/-- **The interval of a double.** It has its ends if the significand is even. -/
structure Covers (x : Binary) (v : ℚ) : Prop where
  low_le : x.low * 2 ^ (x.exponent - 2) ≤ v
  le_high : v ≤ x.high * 2 ^ (x.exponent - 2)
  low_lt : x.significand % 2 ≠ 0 → x.low * 2 ^ (x.exponent - 2) < v
  lt_high : x.significand % 2 ≠ 0 → v < x.high * 2 ^ (x.exponent - 2)

/-- **Reading back** is a matter of the value of a decimal. -/
theorem readsBack_iff (x : Binary) (d : Decimal) : x.readsBack d = true ↔ x.Covers d.value := by
  have hlow : compareScaled d.digits d.exponent x.low (x.exponent - 2) =
      compare d.value (x.low * 2 ^ (x.exponent - 2)) := compareScaled_eq _ _ _ _
  have hhigh : compareScaled d.digits d.exponent x.high (x.exponent - 2) =
      compare d.value (x.high * 2 ^ (x.exponent - 2)) := compareScaled_eq _ _ _ _
  rw [readsBack, ← low, ← high, hlow, hhigh]
  simp only [Bool.and_eq_true, Bool.or_eq_true, beq_iff_eq, compare_gt_iff_gt, compare_lt_iff_lt,
    compare_eq_iff_eq]
  constructor
  · rintro ⟨h | ⟨heven, h⟩, h' | ⟨heven', h'⟩⟩
    · exact ⟨h.le, h'.le, fun _ => h, fun _ => h'⟩
    · exact ⟨h.le, h'.le, fun hodd => absurd heven' hodd, fun hodd => absurd heven' hodd⟩
    · exact ⟨h.ge, h'.le, fun hodd => absurd heven hodd, fun hodd => absurd heven hodd⟩
    · exact ⟨h.ge, h'.le, fun hodd => absurd heven hodd, fun hodd => absurd heven hodd⟩
  · rintro ⟨hle, hle', hlt, hlt'⟩
    by_cases heven : x.significand % 2 = 0
    · exact ⟨hle.lt_or_eq.imp id fun h => ⟨heven, h.symm⟩, hle'.lt_or_eq.imp id (⟨heven, ·⟩)⟩
    · exact ⟨.inl (hlt heven), .inl (hlt' heven)⟩

/-! ### Intervals have nothing in common -/

/-- The doubles that there are: 52 bits behind a leading one, or less with the least exponent. -/
structure Canonical (x : Binary) : Prop where
  le_exponent : -1074 ≤ x.exponent
  significand_lt : x.significand < 2 ^ 53
  le_significand : -1074 < x.exponent → 2 ^ 52 ≤ x.significand
  narrowBelow_iff : x.narrowBelow = true ↔ x.significand = 2 ^ 52 ∧ -1074 < x.exponent

theorem le_low (x : Binary) : 4 * x.significand - 2 ≤ x.low := by
  rw [low]
  split <;> omega

/-- Two doubles with one exponent: the intervals can touch if the significands are neighbours, and
then one of them is odd. -/
theorem high_le_low_of_lt {x y : Binary} (h : x.significand < y.significand) :
    x.high < y.low ∨
      x.high = y.low ∧ (x.significand % 2 ≠ 0 ∨ y.significand % 2 ≠ 0) := by
  have hlow := y.le_low
  rw [high]
  omega

/-- Of two doubles with different exponents the greater one has its interval higher up by at least
one doubling; they can touch at a power of two, and then the lesser significand is all ones. -/
theorem Canonical.high_le_double_low {x y : Binary} (hx : x.Canonical) (hy : y.Canonical)
    (h : x.exponent < y.exponent) :
    x.high < 2 * y.low ∨ x.high = 2 * y.low ∧ x.significand % 2 ≠ 0 := by
  have hlt := hx.significand_lt
  have hmin : -1074 < y.exponent := lt_of_le_of_lt hx.le_exponent h
  have hle := hy.le_significand hmin
  rw [high, low]
  by_cases hnarrow : y.narrowBelow = true
  · have heq := (hy.narrowBelow_iff.mp hnarrow).1
    rw [if_pos hnarrow]
    omega
  · have hne : y.significand ≠ 2 ^ 52 := fun heq => hnarrow (hy.narrowBelow_iff.mpr ⟨heq, hmin⟩)
    rw [if_neg hnarrow]
    omega

/-- A lesser double covers nothing that a greater one covers. -/
theorem Canonical.not_covers_of_lt {x y : Binary} {v : ℚ} (hx : x.Canonical) (hy : y.Canonical)
    (h : x.exponent < y.exponent ∨ x.exponent = y.exponent ∧ x.significand < y.significand)
    (hxv : x.Covers v) : ¬y.Covers v := by
  intro hyv
  have hunit : (0 : ℚ) < 2 ^ (x.exponent - 2) := zpow_pos two_pos _
  -- both ends in quarters of the unit of `x`
  suffices hends : (x.high : ℚ) * 2 ^ (x.exponent - 2) < y.low * 2 ^ (y.exponent - 2) ∨
      (x.high : ℚ) * 2 ^ (x.exponent - 2) ≤ y.low * 2 ^ (y.exponent - 2) ∧
        (x.significand % 2 ≠ 0 ∨ y.significand % 2 ≠ 0) by
    rcases hends with hlt | ⟨hle, hodd | hodd⟩
    · exact absurd (hxv.le_high.trans_lt hlt) hyv.low_le.not_gt
    · exact absurd ((hxv.lt_high hodd).trans_le hle) hyv.low_le.not_gt
    · exact absurd (hxv.le_high.trans hle) (hyv.low_lt hodd).not_ge
  rcases h with hexponent | ⟨hexponent, hsignificand⟩
  · have hscale : (2 : ℚ) * 2 ^ (x.exponent - 2) ≤ 2 ^ (y.exponent - 2) := by
      rw [← zpow_one_add₀ two_ne_zero]
      exact zpow_le_zpow_right₀ one_le_two (by omega)
    have hlow : (2 * y.low : ℚ) * 2 ^ (x.exponent - 2) ≤ y.low * 2 ^ (y.exponent - 2) := by
      rw [mul_comm 2, mul_assoc]
      exact mul_le_mul_of_nonneg_left hscale (Nat.cast_nonneg _)
    rcases hx.high_le_double_low hy hexponent with hlt | ⟨heq, hodd⟩
    · refine .inl (lt_of_lt_of_le ?_ hlow)
      exact mul_lt_mul_of_pos_right (by exact_mod_cast hlt) hunit
    · refine .inr ⟨le_trans (le_of_eq ?_) hlow, .inl hodd⟩
      rw [heq]
      push_cast
      ring
  · rw [← hexponent]
    rcases high_le_low_of_lt hsignificand with hlt | ⟨heq, hodd⟩
    · exact .inl (mul_lt_mul_of_pos_right (by exact_mod_cast hlt) hunit)
    · exact .inr ⟨le_of_eq (by rw [heq]), hodd⟩

/-- **No two doubles cover one number.** -/
theorem Canonical.eq_of_covers {x y : Binary} {v : ℚ} (hx : x.Canonical) (hy : y.Canonical)
    (hxv : x.Covers v) (hyv : y.Covers v) : x = y := by
  have hexponent : x.exponent = y.exponent := by
    rcases lt_trichotomy x.exponent y.exponent with h | h | h
    · exact absurd hyv (hx.not_covers_of_lt hy (.inl h) hxv)
    · exact h
    · exact absurd hxv (hy.not_covers_of_lt hx (.inl h) hyv)
  have hsignificand : x.significand = y.significand := by
    rcases lt_trichotomy x.significand y.significand with h | h | h
    · exact absurd hyv (hx.not_covers_of_lt hy (.inr ⟨hexponent, h⟩) hxv)
    · exact h
    · exact absurd hxv (hy.not_covers_of_lt hx (.inr ⟨hexponent.symm, h⟩) hyv)
  have hnarrow : x.narrowBelow = y.narrowBelow :=
    Bool.eq_iff_iff.mpr (by rw [hx.narrowBelow_iff, hy.narrowBelow_iff, hexponent, hsignificand])
  cases x
  cases y
  simp_all

/-! ### Decimals in the interval -/

/-- A double covers what it denotes. -/
theorem covers_value (x : Binary) : x.Covers x.value := by
  have hunit : (0 : ℚ) < 2 ^ (x.exponent - 2) := zpow_pos two_pos _
  have hvalue : x.value = (4 * x.significand : ℕ) * 2 ^ (x.exponent - 2) := by
    rw [value, zpow_sub₀ two_ne_zero]
    push_cast
    ring
  have hlow : x.low ≤ 4 * x.significand := by
    rw [low]
    split <;> omega
  have hlow' : x.significand % 2 ≠ 0 → x.low < 4 * x.significand := by
    rw [low]
    split <;> omega
  have hhigh : 4 * x.significand < x.high := by
    rw [high]
    omega
  rw [hvalue]
  exact ⟨mul_le_mul_of_nonneg_right (by exact_mod_cast hlow) hunit.le,
    mul_le_mul_of_nonneg_right (by exact_mod_cast hhigh.le) hunit.le,
    fun h => mul_lt_mul_of_pos_right (by exact_mod_cast hlow' h) hunit,
    fun _ => mul_lt_mul_of_pos_right (by exact_mod_cast hhigh) hunit⟩

theorem value_exact (x : Binary) : x.exact.value = x.value := by
  rw [exact, value]
  split
  · next h =>
    obtain ⟨n, hn⟩ := Int.eq_ofNat_of_zero_le h
    simp [Decimal.value, hn, twos]
  · next h =>
    obtain ⟨n, hn⟩ := Int.eq_ofNat_of_zero_le (a := -x.exponent) (by omega)
    have hexponent : x.exponent = -(n : ℤ) := by omega
    have hfive : tens n / twos n = 5 ^ n := by
      rw [tens, twos, Int.toNat_natCast]
      show 10 ^ n / 2 ^ n = 5 ^ n
      rw [← Nat.div_pow (by decide)]
    rw [Decimal.value, hexponent, neg_neg, hfive, zpow_neg, zpow_neg, zpow_natCast, zpow_natCast]
    have hten : (10 : ℚ) ^ n = 5 ^ n * 2 ^ n := by
      rw [← mul_pow]
      norm_num
    push_cast
    rw [hten]
    field_simp

theorem value_stripZeros (fuel : ℕ) (d : Decimal) : (stripZeros fuel d).value = d.value := by
  induction fuel generalizing d with
  | zero => rfl
  | succ fuel ih =>
    rw [stripZeros]
    split
    · next h =>
      have hdigits : d.digits = d.digits / 10 * 10 := by omega
      rw [ih, Decimal.value, Decimal.value, zpow_add_one₀ (by norm_num), hdigits]
      push_cast
      rw [Nat.mul_div_cancel _ (by decide)]
      ring
    · rfl

theorem readsBack_of_onGrid? {x : Binary} {grid : ℤ} {d : Decimal}
    (h : x.onGrid? grid = some d) : x.readsBack d = true := by
  rw [onGrid?] at h
  grind

/-- **The shortest decimal reads back.** -/
theorem covers_shortest (x : Binary) : x.Covers x.shortest.value := by
  rw [shortest, value_stripZeros]
  cases hfound : (List.range 17).findSome? fun (n : ℕ) => x.onGrid? (x.scale - (n + 1 : ℕ)) with
  | none =>
    rw [Option.getD_none, value_exact]
    exact x.covers_value
  | some d =>
    obtain ⟨n, -, hd⟩ := List.exists_of_findSome?_eq_some hfound
    exact (readsBack_iff x d).mp (readsBack_of_onGrid? hd)

theorem value_of_natural? {x : Binary} {n : ℕ} (h : x.natural? = some n) : (n : ℚ) = x.value := by
  rw [natural?] at h
  rw [value, two_zpow_eq]
  split at h
  · next hexponent =>
    have hone : twos (-x.exponent) = 1 := by
      rw [twos, Int.toNat_of_nonpos (by omega)]
    cases h
    rw [hone]
    push_cast
    ring
  · next hexponent =>
    have hone : twos x.exponent = 1 := by
      rw [twos, Int.toNat_of_nonpos (by omega)]
    dsimp only at h
    split at h
    · next hdvd =>
      cases h
      obtain ⟨k, hk⟩ := Nat.dvd_of_mod_eq_zero hdvd
      have hunit : (twos (-x.exponent) : ℚ) ≠ 0 := by exact_mod_cast (twos_pos (-x.exponent)).ne'
      rw [hone, hk, Nat.mul_div_cancel_left _ (twos_pos _)]
      push_cast
      field_simp
    · cases h

/-! ### Bits -/

theorem canonical_ofBits (bits : UInt64) : (ofBits bits).Canonical := by
  have hfraction : bits.toNat % twos 52 < 2 ^ 52 := Nat.mod_lt _ (by decide)
  have htwos : twos 52 = 2 ^ 52 := rfl
  rw [ofBits]
  split
  · exact ⟨le_refl _, hfraction.trans (by decide), fun h => absurd h (lt_irrefl _), by simp⟩
  · next hbiased =>
    refine ⟨?_, ?_, fun _ => ?_, ?_⟩
    · dsimp only
      omega
    · dsimp only
      omega
    · dsimp only
      omega
    · simp only [Bool.and_eq_true, beq_iff_eq, decide_eq_true_iff]
      omega

/-- **Bits and doubles.** Two patterns of bits stand for one double exactly if they differ in the
sign at most. -/
theorem ofBits_eq_ofBits_iff (a b : UInt64) :
    ofBits a = ofBits b ↔ a.toNat % 2 ^ 63 = b.toNat % 2 ^ 63 := by
  have hbiased (c : UInt64) : (c >>> 52).toNat % 2048 = c.toNat % 2 ^ 63 / 2 ^ 52 := by
    rw [UInt64.toNat_shiftRight, Nat.shiftRight_eq_div_pow]
    show c.toNat / 2 ^ 52 % 2048 = _
    omega
  have htwos : twos 52 = 2 ^ 52 := rfl
  rw [ofBits, ofBits, hbiased, hbiased, htwos]
  constructor
  · intro h
    split at h <;> split at h
    all_goals
      injection h with hsignificand hexponent
      omega
  · intro h
    have hfraction : a.toNat % 2 ^ 52 = b.toNat % 2 ^ 52 := by omega
    rw [h, hfraction]

end Binary

end LoxInterpreter
