import LoxInterpreter.Decimal.Notation
import LoxInterpreter.Proofs.Decimal.Interval
import Mathlib.Data.List.TakeWhile

/-!
# Numbers are known from their texts

What is written for a double can be read: digits, perhaps with a point between them, and perhaps a
power of ten behind them (`NumberFormat.read`).

* `Spells text v` says that a text has the look of a number and reads as `v`. All layouts of a
  decimal spell its value.
* What is written for a finite double spells a number that the double covers (`spells_magnitude`).
  No other double covers it, whence `shown_write_injective`.
-/

namespace LoxInterpreter

namespace NumberFormat

/-- The number that a text denotes: digits with a point between them, and behind an `e` the power of
ten, which has a sign. -/
def read (text : List Char) : ℚ :=
  let mantissa := text.takeWhile (· ≠ 'e')
  let behind := text.dropWhile (· ≠ 'e')
  let places : ℤ := ((mantissa.dropWhile (· ≠ '.')).length - 1 : ℕ)
  let power : ℤ := Nat.ofDigitChars 10 (behind.drop 2) 0
  Nat.ofDigitChars 10 (mantissa.filter (· ≠ '.')) 0 *
    10 ^ ((if behind[1]? = some '-' then -power else power) - places)

variable {ds es : List Char}

theorem ne_of_isDigit {c d : Char} (hc : c.isDigit = true) (hd : d.isDigit = false) : c ≠ d := by
  rintro rfl
  rw [hc] at hd
  cases hd

/-- Digits do not stop a search for anything else. -/
theorem ne_of_mem_digits (h : ∀ c ∈ ds, c.isDigit = true) {d : Char} (hd : d.isDigit = false) :
    ∀ c ∈ ds, decide (c ≠ d) = true :=
  fun c hc => decide_eq_true (ne_of_isDigit (h c hc) hd)

/-- Without a power the text is all mantissa. -/
theorem read_of_forall_ne (h : ∀ c ∈ ds, decide (c ≠ 'e') = true) :
    read ds = Nat.ofDigitChars 10 (ds.filter (· ≠ '.')) 0 *
      10 ^ (-(((ds.dropWhile (· ≠ '.')).length - 1 : ℕ) : ℤ)) := by
  rw [read, List.takeWhile_eq_self_iff.mpr h, List.dropWhile_eq_nil_iff.mpr h]
  simp

theorem read_digits (h : ∀ c ∈ ds, c.isDigit = true) : read ds = Nat.ofDigitChars 10 ds 0 := by
  have hpoint := ne_of_mem_digits h (d := '.') rfl
  rw [read_of_forall_ne (ne_of_mem_digits h rfl), List.filter_eq_self.mpr hpoint,
    List.dropWhile_eq_nil_iff.mpr hpoint]
  simp

theorem read_point (hds : ∀ c ∈ ds, c.isDigit = true) (hes : ∀ c ∈ es, c.isDigit = true) :
    read (ds ++ '.' :: es) = Nat.ofDigitChars 10 (ds ++ es) 0 * 10 ^ (-(es.length : ℤ)) := by
  have hpoint := ne_of_mem_digits hds (d := '.') rfl
  rw [read_of_forall_ne, List.filter_append, List.filter_cons_of_neg (by simp),
    List.filter_eq_self.mpr hpoint, List.filter_eq_self.mpr (ne_of_mem_digits hes rfl),
    List.dropWhile_append_of_pos hpoint, List.dropWhile_cons_of_neg (by simp), List.length_cons,
    Nat.add_sub_cancel]
  refine List.forall_mem_append.mpr ⟨ne_of_mem_digits hds rfl, ?_⟩
  exact List.forall_mem_cons.mpr ⟨by decide, ne_of_mem_digits hes rfl⟩

theorem read_power {text ps : List Char} {sign : Char} (h : ∀ c ∈ text, decide (c ≠ 'e') = true) :
    read (text ++ 'e' :: sign :: ps) = read text *
      10 ^ (if sign = '-' then -(Nat.ofDigitChars 10 ps 0 : ℤ) else Nat.ofDigitChars 10 ps 0) := by
  rw [read_of_forall_ne h, read, List.takeWhile_append_of_pos h, List.dropWhile_append_of_pos h,
    List.takeWhile_cons_of_neg (by simp), List.dropWhile_cons_of_neg (by simp), List.append_nil,
    mul_assoc, ← zpow_add₀ (by norm_num)]
  simp only [List.drop_succ_cons, List.drop_zero, List.getElem?_cons_succ, List.getElem?_cons_zero,
    Option.some.injEq, sub_eq_neg_add]

/-! ### Layouts -/

/-- The text begins with a digit, has nothing in it but what numbers are written with, and reads as
the number. -/
structure Spells (text : List Char) (v : ℚ) : Prop where
  head : ∃ c rest, text = c :: rest ∧ c.isDigit = true
  each : ∀ c ∈ text, c.isDigit = true ∨ c ∈ ['.', 'e', '+', '-']
  read_eq : read text = v

theorem isDigit_toDigits (n : ℕ) : ∀ c ∈ Nat.toDigits 10 n, c.isDigit = true :=
  fun _ => Nat.isDigit_of_mem_toDigits (by decide) (by decide)

theorem exists_toDigits_eq_cons (n : ℕ) : ∃ c rest, Nat.toDigits 10 n = c :: rest :=
  List.exists_cons_of_length_pos Nat.length_toDigits_pos

theorem isDigit_replicate_append (k n : ℕ) :
    ∀ c ∈ List.replicate k '0' ++ Nat.toDigits 10 n, c.isDigit = true := by
  refine List.forall_mem_append.mpr ⟨fun c hc => ?_, isDigit_toDigits n⟩
  rw [List.eq_of_mem_replicate hc]
  rfl

theorem ofDigitChars_replicate_append (k n : ℕ) :
    Nat.ofDigitChars 10 (List.replicate k '0' ++ Nat.toDigits 10 n) 0 = n := by
  rw [Nat.ofDigitChars_append, Nat.ofDigitChars_replicate_zero, Nat.mul_zero,
    Nat.ofDigitChars_ten_toDigits]

theorem toList_pushn (k : ℕ) : ("".pushn '0' k).toList = List.replicate k '0' := by
  rw [String.pushn_eq_repeat_push]
  induction k with
  | zero => rfl
  | succ k ih => rw [Nat.repeat, String.toList_push, ih, List.replicate_succ']

theorem spells_digits {c : Char} (h : ∀ d ∈ c :: ds, d.isDigit = true) :
    Spells (c :: ds) (Nat.ofDigitChars 10 (c :: ds) 0) :=
  ⟨⟨c, ds, rfl, h c List.mem_cons_self⟩, fun d hd => .inl (h d hd), read_digits h⟩

theorem spells_point {c : Char} (h : ∀ d ∈ c :: ds, d.isDigit = true)
    (hes : ∀ d ∈ es, d.isDigit = true) :
    Spells (c :: ds ++ '.' :: es)
      (Nat.ofDigitChars 10 (c :: ds ++ es) 0 * 10 ^ (-(es.length : ℤ))) := by
  refine ⟨⟨c, _, rfl, h c List.mem_cons_self⟩, ?_, read_point h hes⟩
  exact List.forall_mem_append.mpr ⟨fun d hd => .inl (h d hd),
    List.forall_mem_cons.mpr ⟨.inr (by simp), fun d hd => .inl (hes d hd)⟩⟩

theorem spells_toString (n : ℕ) : Spells (toString n).toList n := by
  obtain ⟨c, rest, h⟩ := exists_toDigits_eq_cons n
  have hdigits := isDigit_toDigits n
  have hvalue := Nat.ofDigitChars_ten_toDigits (n := n)
  rw [h] at hdigits hvalue
  rw [Nat.toString_eq_repr, Nat.toList_repr, h]
  simpa only [hvalue] using spells_digits hdigits

/-- A decimal whose point stands behind all of its digits. -/
theorem spells_positional_of_nonneg (d : Decimal) (h : 0 ≤ d.exponent) :
    Spells (shown.positional d).toList d.value := by
  obtain ⟨k, hk⟩ := Int.eq_ofNat_of_zero_le h
  obtain ⟨c, rest, hcons⟩ := exists_toDigits_eq_cons d.digits
  have hdigits : ∀ x ∈ c :: (rest ++ List.replicate k '0'), x.isDigit = true := by
    rw [← List.cons_append, ← hcons]
    refine List.forall_mem_append.mpr ⟨isDigit_toDigits _, fun x hx => ?_⟩
    rw [List.eq_of_mem_replicate hx]
    rfl
  have hvalue : (Nat.ofDigitChars 10 (c :: (rest ++ List.replicate k '0')) 0 : ℚ) = d.value := by
    rw [← List.cons_append, ← hcons, Nat.ofDigitChars_append, Nat.ofDigitChars_ten_toDigits,
      Nat.ofDigitChars_replicate_zero, Decimal.value, hk]
    push_cast
    rw [zpow_natCast, mul_comm]
  have htext : (shown.positional d).toList = c :: (rest ++ List.replicate k '0') := by
    rw [positional, if_pos h, hk, Int.toNat_natCast]
    simp only [String.toList_append, Nat.toString_eq_repr, Nat.toList_repr, toList_pushn, hcons]
    exact List.append_nil _
  rw [htext, ← hvalue]
  exact spells_digits hdigits

/-- A decimal with digits behind the point. -/
theorem spells_positional_of_neg (d : Decimal) (h : ¬0 ≤ d.exponent) :
    Spells (shown.positional d).toList d.value := by
  obtain ⟨k, hk⟩ := Int.eq_ofNat_of_zero_le (a := -d.exponent) (by omega)
  obtain ⟨zeros, hzeros⟩ : ∃ n, k + 1 - (toString d.digits).length = n := ⟨_, rfl⟩
  obtain ⟨padded, hpadded⟩ : ∃ p, "".pushn '0' zeros ++ toString d.digits = p := ⟨_, rfl⟩
  have hlist : padded.toList = List.replicate zeros '0' ++ Nat.toDigits 10 d.digits := by
    rw [← hpadded, String.toList_append, toList_pushn, Nat.toString_eq_repr, Nat.toList_repr]
  have hdigits : ∀ x ∈ padded.toList, x.isDigit = true :=
    hlist ▸ isDigit_replicate_append zeros d.digits
  have hvalue : Nat.ofDigitChars 10 padded.toList 0 = d.digits :=
    hlist ▸ ofDigitChars_replicate_append zeros d.digits
  have hlength : k + 1 ≤ padded.length := by
    rw [← hpadded, String.length_append, String.length_pushn]
    omega
  have htext : (shown.positional d).toList = padded.toList.take (padded.length - k) ++
      '.' :: padded.toList.drop (padded.length - k) := by
    rw [positional, if_neg h, hk, Int.toNat_natCast]
    dsimp only
    rw [hzeros, hpadded]
    simp
  -- there is a digit before the point
  obtain ⟨c, rest, hwhole⟩ : ∃ c rest, padded.toList.take (padded.length - k) = c :: rest := by
    refine List.exists_cons_of_length_pos ?_
    rw [List.length_take, String.length_toList]
    omega
  have hfraction : (padded.toList.drop (padded.length - k)).length = k := by
    rw [List.length_drop, String.length_toList]
    omega
  have hbefore : ∀ x ∈ c :: rest, x.isDigit = true := by
    rw [← hwhole]
    exact fun x hx => hdigits x (List.mem_of_mem_take hx)
  have hbehind : ∀ x ∈ padded.toList.drop (padded.length - k), x.isDigit = true :=
    fun x hx => hdigits x (List.mem_of_mem_drop hx)
  have hspells := spells_point hbefore hbehind
  have hexponent : d.exponent = -(k : ℤ) := by omega
  rw [hfraction, ← hwhole, List.take_append_drop, hvalue] at hspells
  rw [htext, Decimal.value, hexponent]
  exact hspells

/-- The digits of a decimal with the point behind the first of them. -/
theorem spells_mantissa {c : Char} (h : ∀ d ∈ c :: ds, d.isDigit = true) :
    Spells (c :: if ds = [] then [] else '.' :: ds)
      (Nat.ofDigitChars 10 (c :: ds) 0 * 10 ^ (-(ds.length : ℤ))) := by
  obtain ⟨hc, hds⟩ := List.forall_mem_cons.mp h
  cases ds with
  | nil => simpa using spells_digits h
  | cons d ds => exact spells_point (List.forall_mem_singleton.mpr hc) hds

theorem ne_of_mem_mantissa {c : Char} (h : ∀ d ∈ c :: ds, d.isDigit = true) :
    ∀ d ∈ c :: (if ds = [] then [] else '.' :: ds), decide (d ≠ 'e') = true := by
  have hne := ne_of_mem_digits h (d := 'e') rfl
  cases ds with
  | nil => exact hne
  | cons d ds =>
    obtain ⟨hc, hds⟩ := List.forall_mem_cons.mp hne
    exact List.forall_mem_cons.mpr ⟨hc, List.forall_mem_cons.mpr ⟨by decide, hds⟩⟩

theorem Spells.power {text ps : List Char} {v : ℚ} {sign : Char} (h : Spells text v)
    (htext : ∀ c ∈ text, decide (c ≠ 'e') = true) (hsign : sign ∈ ['+', '-'])
    (hps : ∀ c ∈ ps, c.isDigit = true) :
    Spells (text ++ 'e' :: sign :: ps) (v *
      10 ^ (if sign = '-' then -(Nat.ofDigitChars 10 ps 0 : ℤ) else Nat.ofDigitChars 10 ps 0)) := by
  obtain ⟨c, rest, rfl, hc⟩ := h.head
  refine ⟨⟨c, _, rfl, hc⟩, ?_, by rw [read_power htext, h.read_eq]⟩
  refine List.forall_mem_append.mpr ⟨h.each, List.forall_mem_cons.mpr ⟨.inr (by simp), ?_⟩⟩
  refine List.forall_mem_cons.mpr ⟨.inr ?_, fun c hc => .inl (hps c hc)⟩
  exact List.mem_cons_of_mem _ (List.mem_cons_of_mem _ hsign)

theorem spells_scientific (d : Decimal) : Spells (scientific d).toList d.value := by
  obtain ⟨c, rest, hcons⟩ := exists_toDigits_eq_cons d.digits
  have hdigits := isDigit_toDigits d.digits
  have hvalue := Nat.ofDigitChars_ten_toDigits (n := d.digits)
  rw [hcons] at hdigits hvalue
  obtain ⟨leading, hleading⟩ : ∃ l : ℤ, d.exponent + (c :: rest).length - 1 = l := ⟨_, rfl⟩
  obtain ⟨zeros, hzeros⟩ : ∃ n, 2 - (toString leading.natAbs).length = n := ⟨_, rfl⟩
  have htext : (scientific d).toList = (c :: if rest = [] then [] else '.' :: rest) ++
      'e' :: (if leading < 0 then '-' else '+') ::
        (List.replicate zeros '0' ++ Nat.toDigits 10 leading.natAbs) := by
    rw [scientific, Nat.toString_eq_repr, Nat.toList_repr, hcons, hleading, hzeros]
    simp only [String.toList_append, String.toList_ofList, toList_pushn, Nat.toString_eq_repr,
      Nat.toList_repr]
    cases rest <;> rcases em (leading < 0) with hneg | hneg <;> simp [hneg]
  have hpower : (if (if leading < 0 then '-' else '+') = '-' then -(leading.natAbs : ℤ)
      else leading.natAbs) = leading := by
    by_cases hneg : leading < 0
    · rw [if_pos hneg, if_pos rfl]
      omega
    · rw [if_neg hneg, if_neg (by decide)]
      omega
  have hsign : (if leading < 0 then '-' else '+') ∈ ['+', '-'] := by split <;> simp
  have hspells := (spells_mantissa hdigits).power (ne_of_mem_mantissa hdigits) hsign
    (isDigit_replicate_append zeros leading.natAbs)
  have hexponent : -(rest.length : ℤ) + leading = d.exponent := by
    rw [← hleading, List.length_cons]
    push_cast
    ring
  rw [ofDigitChars_replicate_append, hpower, hvalue, mul_assoc, ← zpow_add₀ (by norm_num),
    hexponent] at hspells
  rw [htext]
  exact hspells

theorem spells_layout (d : Decimal) : Spells (shown.layout d).toList d.value := by
  rw [layout]
  split
  · rcases em (0 ≤ d.exponent) with h | h
    · exact spells_positional_of_nonneg d h
    · exact spells_positional_of_neg d h
  · exact spells_scientific d

/-! ### Doubles -/

/-- What is written for the magnitude of a double spells a number in its interval. -/
theorem spells_magnitude (x : Binary) :
    ∃ v, x.Covers v ∧ Spells (shown.magnitude x).toList v := by
  rw [magnitude]
  split
  · next hzero =>
    have hvalue : x.value = (⟨0, 0⟩ : Decimal).value := by simp [Binary.value, Decimal.value, hzero]
    exact ⟨_, hvalue ▸ x.covers_value, spells_layout _⟩
  · split
    · next n _ hn =>
      exact ⟨n, Binary.value_of_natural? hn ▸ x.covers_value, spells_toString n⟩
    · exact ⟨_, x.covers_shortest, spells_layout _⟩

/-- The magnitude of a double is known from what is written for it. -/
theorem magnitude_injective {x y : Binary} (hx : x.Canonical) (hy : y.Canonical)
    (h : shown.magnitude x = shown.magnitude y) : x = y := by
  obtain ⟨v, hxv, hv⟩ := spells_magnitude x
  obtain ⟨w, hyw, hw⟩ := spells_magnitude y
  have heq : v = w := by rw [← hv.read_eq, ← hw.read_eq, h]
  exact hx.eq_of_covers hy hxv (heq ▸ hyw)

/-- A finite double is neither of the other two kinds. -/
theorem isNaN_isInf_of_isFinite {x : Float} (h : x.isFinite = true) :
    x.isNaN = false ∧ x.isInf = false := by
  rw [Float.isFinite, Float.Model.isFinite] at h
  rw [Float.isNaN, Float.Model.isNaN, Float.isInf, Float.Model.isInf]
  cases hx : x.toModel.unpack <;> rw [hx] at h <;> first | exact ⟨rfl, rfl⟩ | cases h

/-- Doubles are known from their bits. -/
theorem eq_of_toBits_eq {x y : Float} (h : x.toBits = y.toBits) : x = y := by
  obtain ⟨⟨bits, valid⟩⟩ := x
  obtain ⟨⟨bits', valid'⟩⟩ := y
  cases (h : bits = bits')
  rfl

/-- The sign in front of what is written for a double. -/
def sign (x : Float) : List Char := if x.toBits >>> 63 = 1 then ['-'] else []

theorem toList_write {x : Float} (h : x.isFinite = true) :
    (shown.write x).toList = sign x ++ (shown.magnitude (Binary.ofBits x.toBits)).toList := by
  obtain ⟨hnan, hinf⟩ := isNaN_isInf_of_isFinite h
  rw [write, hnan, hinf]
  dsimp only
  rw [if_neg Bool.false_ne_true, if_neg Bool.false_ne_true, String.toList_append, sign]
  split <;> rfl

/-- The sign is told from the rest of the text, which begins with a digit. -/
theorem sign_append_injective {x y : Float} {ds es : List Char} {v w : ℚ} (hds : Spells ds v)
    (hes : Spells es w) (h : sign x ++ ds = sign y ++ es) : sign x = sign y ∧ ds = es := by
  obtain ⟨c, ds, rfl, hc⟩ := hds.head
  obtain ⟨d, es, rfl, hd⟩ := hes.head
  have hc' := ne_of_isDigit hc (d := '-') rfl
  have hd' := ne_of_isDigit hd (d := '-') rfl
  rw [sign, sign] at h ⊢
  split at h <;> split at h
  · next hx hy => exact ⟨by rw [if_pos hx, if_pos hy], (List.cons.inj h).2⟩
  · exact absurd (List.cons.inj h).1.symm hd'
  · exact absurd (List.cons.inj h).1 hc'
  · next hx hy => exact ⟨by rw [if_neg hx, if_neg hy], h⟩

theorem toNat_div_eq_of_sign_eq {x y : Float} (h : sign x = sign y) :
    x.toBits.toNat / 2 ^ 63 = y.toBits.toNat / 2 ^ 63 := by
  have hshift (a : UInt64) : (a >>> 63 = 1) ↔ a.toNat / 2 ^ 63 = 1 := by
    rw [← UInt64.toNat_inj, UInt64.toNat_shiftRight, Nat.shiftRight_eq_div_pow]
    rfl
  have hx := x.toBits.toNat_lt
  have hy := y.toBits.toNat_lt
  rw [sign, sign] at h
  split at h <;> split at h
  · next hx' hy' => rw [(hshift _).mp hx', (hshift _).mp hy']
  · cases h
  · cases h
  · next hx' hy' =>
    rw [hshift] at hx' hy'
    omega

/-- **A finite double is known from what is written for it.** -/
theorem shown_write_injective {x y : Float} (hx : x.isFinite = true) (hy : y.isFinite = true)
    (h : shown.write x = shown.write y) : x = y := by
  obtain ⟨v, -, hv⟩ := spells_magnitude (Binary.ofBits x.toBits)
  obtain ⟨w, -, hw⟩ := spells_magnitude (Binary.ofBits y.toBits)
  have hlist := congrArg String.toList h
  rw [toList_write hx, toList_write hy] at hlist
  obtain ⟨hsign, hmagnitude⟩ := sign_append_injective hv hw hlist
  have hbinary := magnitude_injective (Binary.canonical_ofBits _) (Binary.canonical_ofBits _)
    (String.toList_inj.mp hmagnitude)
  have hlow := (Binary.ofBits_eq_ofBits_iff _ _).mp hbinary
  have hhigh := toNat_div_eq_of_sign_eq hsign
  refine eq_of_toBits_eq (UInt64.toNat_inj.mp ?_)
  rw [← Nat.div_add_mod x.toBits.toNat (2 ^ 63), ← Nat.div_add_mod y.toBits.toNat (2 ^ 63), hlow,
    hhigh]

/-- What is written for a finite double begins with a digit or a minus sign, and has nothing in it
but what numbers are written with. -/
theorem exists_write_eq_cons {x : Float} (h : x.isFinite = true) :
    ∃ c rest, (shown.write x).toList = c :: rest ∧ (c.isDigit = true ∨ c = '-') ∧
      ∀ d ∈ c :: rest, d.isDigit = true ∨ d ∈ ['.', 'e', '+', '-'] := by
  obtain ⟨v, -, hv⟩ := spells_magnitude (Binary.ofBits x.toBits)
  obtain ⟨c, rest, hcons, hc⟩ := hv.head
  have heach := hv.each
  rw [toList_write h]
  rw [hcons] at heach ⊢
  rw [sign]
  split
  · exact ⟨'-', _, rfl, .inr rfl, List.forall_mem_cons.mpr ⟨.inr (by simp), heach⟩⟩
  · exact ⟨c, rest, rfl, .inl hc, heach⟩

end NumberFormat

end LoxInterpreter
