import Mathlib.Algebra.Order.Field.Power
import Mathlib.Algebra.Order.Field.Rat
import Mathlib.Tactic.FieldSimp
import Mathlib.Tactic.Linarith
import Mathlib.Tactic.Positivity
import Mathlib.Tactic.Ring
import SegY.Ieee

/-!
# Floats — the nearest one

The value of a number is a rational (`Number.toRat?`), so what rounding does can be said without
patterns: the rounded pattern has the value that is nearest to the quotient among all finite ones,
and of two that are equally near it is the even one (`FloatType.IsNearest`).

Around a quotient `x` all numbers of a format are multiples of one power of two, the quantum, or
they lie below the binade of `x` altogether.  So a quotient rounded to an integral count of quanta
is rounded to the nearest float.

* `abs_roundDiv_sub_le`: the nearest integer.
* `FloatType.value?_pattern`: the value of a pattern, as a count of quanta.
* `FloatType.isNearest_ofNumber`: rounding gives the nearest float.
* `FloatType.value?_ofNumber_of_fits`: a number that the format has is kept.
* `FloatType.saturate_of_le`, `meaning_saturate_of_lt`: where saturating is rounding, and where not.
-/

namespace SegY

/-! ### The nearest integer -/

section RoundDiv

/-- Between the rounded quotient and another integer there is a whole step. -/
theorem one_le_abs_sub_add_abs_sub {n d : ℕ} {k : ℤ} (hk : k ≠ roundDiv n d) :
    1 ≤ |(k : ℚ) - n / d| + |(roundDiv n d : ℚ) - n / d| := by
  have hstep : (1 : ℚ) ≤ |(k : ℚ) - roundDiv n d| := by
    exact_mod_cast Int.one_le_abs (sub_ne_zero.mpr hk)
  calc (1 : ℚ) ≤ |(k : ℚ) - roundDiv n d| := hstep
    _ ≤ |(k : ℚ) - n / d| + |(n : ℚ) / d - roundDiv n d| := abs_sub_le ..
    _ = |(k : ℚ) - n / d| + |(roundDiv n d : ℚ) - n / d| := by rw [abs_sub_comm (n / d : ℚ)]

variable (n : ℕ) {d : ℕ} (hd : 0 < d)
include hd

/-- The rounded quotient, multiplied out. -/
theorem roundDiv_bounds :
    d * (2 * roundDiv n d) ≤ 2 * n + d ∧ 2 * n ≤ d * (2 * roundDiv n d) + d ∧
      (d * (2 * roundDiv n d) = 2 * n + d ∨ 2 * n = d * (2 * roundDiv n d) + d →
        roundDiv n d % 2 = 0) := by
  have hn : d * (n / d) + n % d = n := Nat.div_add_mod n d
  have hr : n % d < d := Nat.mod_lt n hd
  have hdouble : ∀ k, d * (2 * k) = 2 * (d * k) := fun k => Nat.mul_left_comm ..
  have hsucc : d * (n / d + 1) = d * (n / d) + d := Nat.mul_succ ..
  simp only [roundDiv, hdouble]
  split
  · omega
  · rw [hsucc]
    omega

/-- Rounding moves a quotient by half at most. -/
theorem abs_roundDiv_sub_le_half : |(roundDiv n d : ℚ) - n / d| ≤ 1 / 2 := by
  have hpos : (0 : ℚ) < d := by exact_mod_cast hd
  obtain ⟨hlow, hhigh, -⟩ := roundDiv_bounds n hd
  have hlow' : (d : ℚ) * (2 * roundDiv n d) ≤ 2 * n + d := by exact_mod_cast hlow
  have hhigh' : (2 : ℚ) * n ≤ d * (2 * roundDiv n d) + d := by exact_mod_cast hhigh
  rw [abs_le]
  constructor
  · rw [le_sub_iff_add_le, ← sub_eq_neg_add, sub_le_iff_le_add, div_le_iff₀ hpos]
    linarith
  · rw [sub_le_iff_le_add, ← sub_le_iff_le_add', le_div_iff₀ hpos]
    linarith

theorem roundDiv_even_of_half (h : |(roundDiv n d : ℚ) - n / d| = 1 / 2) :
    roundDiv n d % 2 = 0 := by
  have hpos : (d : ℚ) ≠ 0 := by exact_mod_cast hd.ne'
  refine (roundDiv_bounds n hd).2.2 ?_
  rcases abs_eq (by norm_num : (0 : ℚ) ≤ 1 / 2) |>.mp h with h | h
  · left
    field_simp at h
    have h' : (d : ℚ) * (2 * roundDiv n d) = 2 * n + d := by linarith
    exact_mod_cast h'
  · right
    field_simp at h
    have h' : (2 : ℚ) * n = d * (2 * roundDiv n d) + d := by linarith
    exact_mod_cast h'

/-- No integer is nearer to a quotient than the rounded one. -/
theorem abs_roundDiv_sub_le (k : ℤ) : |(roundDiv n d : ℚ) - n / d| ≤ |(k : ℚ) - n / d| := by
  by_cases hk : k = roundDiv n d
  · rw [hk, Int.cast_natCast]
  · linarith [one_le_abs_sub_add_abs_sub hk, abs_roundDiv_sub_le_half n hd]

/-- If another integer is as near, then the rounded one is even. -/
theorem roundDiv_even_of_tie {k : ℤ} (hk : k ≠ roundDiv n d)
    (h : |(k : ℚ) - n / d| = |(roundDiv n d : ℚ) - n / d|) : roundDiv n d % 2 = 0 := by
  refine roundDiv_even_of_half n hd ?_
  linarith [one_le_abs_sub_add_abs_sub hk, abs_roundDiv_sub_le_half n hd]

end RoundDiv

/-! ### Values -/

theorem two_zpow_pos (e : ℤ) : (0 : ℚ) < 2 ^ e := zpow_pos two_pos e

/-- A power of two moved into a quotient of shifted integers. -/
theorem shiftLeft_div_shiftLeft (num den : ℕ) (e : ℤ) :
    ((num <<< e.toNat : ℕ) : ℚ) / (den <<< (-e).toNat : ℕ) = num / den * 2 ^ e := by
  simp only [Nat.shiftLeft_eq, Nat.cast_mul, Nat.cast_pow, Nat.cast_ofNat]
  rcases le_total 0 e with he | he
  · obtain ⟨k, rfl⟩ := Int.eq_ofNat_of_zero_le he
    simp [mul_div_right_comm]
  · obtain ⟨k, hk⟩ := Int.eq_ofNat_of_zero_le (neg_nonneg.mpr he)
    obtain rfl : e = -(k : ℤ) := by omega
    simp only [neg_neg, Int.toNat_natCast, Int.toNat_neg_natCast, pow_zero, mul_one, zpow_neg,
      zpow_natCast, div_mul_eq_div_mul_one_div, one_div]

/-- The same with the quotient divided. -/
theorem shiftLeft_div_shiftLeft_neg (num den : ℕ) (e : ℤ) :
    ((num <<< (-e).toNat : ℕ) : ℚ) / (den <<< e.toNat : ℕ) = num / den / 2 ^ e := by
  have h := shiftLeft_div_shiftLeft num den (-e)
  rwa [neg_neg, zpow_neg, ← div_eq_mul_inv] at h

theorem shiftLeft_pos {n : ℕ} (hn : 0 < n) (k : ℕ) : 0 < n <<< k := by
  rw [Nat.shiftLeft_eq]
  exact Nat.mul_pos hn (Nat.two_pow_pos k)

namespace Number

/-- A rational number or its opposite. -/
def withSign (negative : Bool) (x : ℚ) : ℚ := if negative then -x else x

/-- The value of a finite number. -/
def toRat? : Number → Option ℚ
  | finite negative m e => some (withSign negative (m * 2 ^ e))
  | infinite _ => none
  | nan _ _ => none

theorem cast_signed (negative : Bool) (m : ℕ) : (signed negative m : ℚ) = withSign negative m := by
  cases negative <;> simp [signed, withSign]

@[simp] theorem withSign_withSign (negative : Bool) (x : ℚ) :
    withSign negative (withSign negative x) = x := by
  cases negative <;> simp [withSign]

@[simp] theorem abs_withSign (negative : Bool) (x : ℚ) : |withSign negative x| = |x| := by
  cases negative <;> simp [withSign]

/-- A sign does not change a distance. -/
theorem abs_sub_withSign (negative : Bool) (u x : ℚ) :
    |u - withSign negative x| = |withSign negative u - x| := by
  cases negative
  · rfl
  · rw [withSign, if_pos rfl, withSign, if_pos rfl, ← abs_neg]
    congr 1
    ring

theorem numerator_div_denominator (m : ℕ) (e : ℤ) :
    (numerator m e : ℚ) / denominator e = m * 2 ^ e := by
  have h := shiftLeft_div_shiftLeft m 1 e
  rwa [Nat.cast_one, div_one] at h

theorem denominator_pos (e : ℤ) : 0 < denominator e := shiftLeft_pos Nat.one_pos _

@[simp] theorem toRat?_ofInt (n : ℤ) : (ofInt n).toRat? = some (n : ℚ) := by
  have hn : signed (decide (n < 0)) n.natAbs = n := by
    simp only [signed, decide_eq_true_eq]
    split <;> omega
  rw [ofInt, toRat?, zpow_zero, mul_one, ← cast_signed, hn]

end Number

namespace FloatType

/-! ### The binade of a quotient -/

section Binade

variable {num den : ℕ}

/-- The comparison of shifted integers by which a binade is found. -/
theorem shiftLeft_le_shiftLeft_iff (hden : 0 < den) (e : ℤ) :
    den <<< e.toNat ≤ num <<< (-e).toNat ↔ (2 : ℚ) ^ e ≤ num / den := by
  have hpos : (0 : ℚ) < (den <<< e.toNat : ℕ) := by exact_mod_cast shiftLeft_pos hden _
  rw [← Nat.cast_le (α := ℚ), ← one_le_div hpos, shiftLeft_div_shiftLeft_neg,
    one_le_div (by positivity)]

variable (hnum : num ≠ 0) (hden : 0 < den)
include hnum hden

/-- The bit lengths of the parts tell the binade of a quotient but for one. -/
theorem zpow_log2_sub_log2 :
    (2 : ℚ) ^ ((num.log2 : ℤ) - den.log2 - 1) < num / den ∧
      (num / den : ℚ) < 2 ^ ((num.log2 : ℤ) - den.log2 + 1) := by
  have hden' : (0 : ℚ) < den := by exact_mod_cast hden
  have hnum₁ : (2 : ℚ) ^ (num.log2 : ℤ) ≤ num := by
    rw [zpow_natCast]
    exact_mod_cast Nat.log2_self_le hnum
  have hnum₂ : (num : ℚ) < 2 ^ ((num.log2 : ℤ) + 1) := by
    exact_mod_cast Nat.lt_log2_self (n := num)
  have hden₁ : (2 : ℚ) ^ (den.log2 : ℤ) ≤ den := by
    rw [zpow_natCast]
    exact_mod_cast Nat.log2_self_le hden.ne'
  have hden₂ : (den : ℚ) < 2 ^ ((den.log2 : ℤ) + 1) := by
    exact_mod_cast Nat.lt_log2_self (n := den)
  constructor
  · rw [lt_div_iff₀ hden']
    calc (2 : ℚ) ^ ((num.log2 : ℤ) - den.log2 - 1) * den
        < 2 ^ ((num.log2 : ℤ) - den.log2 - 1) * 2 ^ ((den.log2 : ℤ) + 1) := by gcongr
      _ = 2 ^ (num.log2 : ℤ) := by
          rw [← zpow_add₀ two_ne_zero]
          congr 1
          omega
      _ ≤ num := hnum₁
  · rw [div_lt_iff₀ hden']
    calc (num : ℚ) < 2 ^ ((num.log2 : ℤ) + 1) := hnum₂
      _ = 2 ^ ((num.log2 : ℤ) - den.log2 + 1) * 2 ^ (den.log2 : ℤ) := by
          rw [← zpow_add₀ two_ne_zero]
          congr 1
          omega
      _ ≤ 2 ^ ((num.log2 : ℤ) - den.log2 + 1) * den := by gcongr

/-- The binade of a quotient. -/
theorem zpow_floorLog2_le : (2 : ℚ) ^ floorLog2 num den ≤ num / den := by
  rw [floorLog2]
  split
  · next h => exact (shiftLeft_le_shiftLeft_iff hden _).mp h
  · exact (zpow_log2_sub_log2 hnum hden).1.le

theorem lt_zpow_floorLog2_succ : (num / den : ℚ) < 2 ^ (floorLog2 num den + 1) := by
  rw [floorLog2]
  split
  · exact (zpow_log2_sub_log2 hnum hden).2
  · next h =>
    rw [Int.sub_add_cancel]
    exact lt_of_not_ge fun hle => h ((shiftLeft_le_shiftLeft_iff hden _).mpr hle)

end Binade

/-! ### What a pattern means -/

theorem infinity_lt (t : FloatType) : t.infinity < 2 ^ (t.bits - 1) := by
  cases t <;> decide

theorem toNat_pattern (t : FloatType) (negative : Bool) {p : ℕ} (hp : p < 2 ^ (t.bits - 1)) :
    (t.pattern negative p).toNat = p + if negative then 2 ^ (t.bits - 1) else 0 := by
  have hbits : 2 ^ t.bits = 2 * 2 ^ (t.bits - 1) := by cases t <;> rfl
  rw [pattern, BitVec.toNat_ofNat, Nat.one_shiftLeft]
  apply Nat.mod_eq_of_lt
  split <;> omega

section Fields

variable (t : FloatType) (negative : Bool) {p : ℕ} (hp : p < 2 ^ (t.bits - 1))
include hp

theorem sign_pattern : ((t.pattern negative p).toNat >>> (t.bits - 1) == 1) = negative := by
  rw [toNat_pattern t negative hp, Nat.shiftRight_eq_div_pow]
  cases t <;> cases negative <;> simp [bits] at hp ⊢ <;> omega

theorem exponent_pattern :
    ((t.pattern negative p).toNat >>> t.fractionBits) % (1 <<< t.exponentBits) =
      p / 2 ^ t.fractionBits := by
  rw [toNat_pattern t negative hp, Nat.shiftRight_eq_div_pow, Nat.one_shiftLeft]
  cases t <;> cases negative <;> simp [bits, fractionBits, exponentBits] at hp ⊢ <;> omega

theorem fraction_pattern :
    (t.pattern negative p).toNat % (1 <<< t.fractionBits) = p % 2 ^ t.fractionBits := by
  rw [toNat_pattern t negative hp, Nat.one_shiftLeft]
  cases t <;> cases negative <;> simp [bits, fractionBits] at hp ⊢ <;> omega

end Fields

theorem meaning_pattern (t : FloatType) (negative : Bool) {p : ℕ} (hp : p < t.infinity) :
    t.meaning (t.pattern negative p) =
      if p / 2 ^ t.fractionBits = 0 then .finite negative p t.lowestExponent
      else .finite negative (2 ^ t.fractionBits + p % 2 ^ t.fractionBits)
        (t.lowestExponent + ((p / 2 ^ t.fractionBits : ℕ) - 1)) := by
  have hlt : p < 2 ^ (t.bits - 1) := lt_trans hp t.infinity_lt
  have hfinite : p / 2 ^ t.fractionBits ≠ (1 <<< t.exponentBits) - 1 := by
    cases t <;> simp [infinity, fractionBits, exponentBits] at hp ⊢ <;> omega
  simp only [meaning, sign_pattern t negative hlt, exponent_pattern t negative hlt,
    fraction_pattern t negative hlt, if_neg hfinite]
  split
  · next h => rw [Nat.mod_eq_of_lt (Nat.lt_of_div_eq_zero (Nat.two_pow_pos _) h)]
  · rw [Nat.one_shiftLeft]

/-- The pattern of an infinity. -/
theorem meaning_pattern_infinity (t : FloatType) (negative : Bool) :
    t.meaning (t.pattern negative t.infinity) = .infinite negative := by
  cases t <;> cases negative <;> decide

/-- The significand and the exponent of a finite pattern. -/
theorem finite_bounds {t : FloatType} {w : t.Word} {negative : Bool} {m : ℕ} {e : ℤ}
    (h : t.meaning w = .finite negative m e) :
    m < 2 ^ (t.fractionBits + 1) ∧ t.lowestExponent ≤ e ∧
      e ≤ t.lowestExponent + (2 ^ t.exponentBits - 3 : ℕ) := by
  have hexponent : (w.toNat >>> t.fractionBits) % (1 <<< t.exponentBits) < 2 ^ t.exponentBits := by
    rw [Nat.one_shiftLeft]
    exact Nat.mod_lt _ (Nat.two_pow_pos _)
  have hfraction : w.toNat % (1 <<< t.fractionBits) < 2 ^ t.fractionBits := by
    rw [Nat.one_shiftLeft]
    exact Nat.mod_lt _ (Nat.two_pow_pos _)
  have hsucc : 2 ^ (t.fractionBits + 1) = 2 * 2 ^ t.fractionBits := Nat.pow_succ'
  simp only [meaning, Nat.one_shiftLeft] at h hexponent hfraction
  generalize 2 ^ t.exponentBits = exponents at *
  split at h
  · split at h <;> cases h
  · split at h <;> cases h <;> omega

/-- Patterns above that of infinity mean no number. -/
theorem meaning_pattern_of_gt (t : FloatType) (negative : Bool) {p : ℕ}
    (hp : p < 2 ^ (t.bits - 1)) (hgt : t.infinity < p) :
    ∃ payload, t.meaning (t.pattern negative p) = .nan negative payload := by
  have hexponent : p / 2 ^ t.fractionBits = (1 <<< t.exponentBits) - 1 := by
    cases t <;> simp [infinity, fractionBits, exponentBits, bits] at hp hgt ⊢ <;> omega
  have hfraction : p % 2 ^ t.fractionBits ≠ 0 := by
    cases t <;> simp [infinity, fractionBits, bits, exponentBits] at hp hgt ⊢ <;> omega
  simp only [meaning, sign_pattern t negative hp, exponent_pattern t negative hp,
    fraction_pattern t negative hp, if_pos hexponent, if_neg hfraction]
  exact ⟨_, rfl⟩

/-! ### The value of a pattern -/

/-- The value of a pattern that means a finite number. -/
def value? (t : FloatType) (w : t.Word) : Option ℚ := (t.meaning w).toRat?

/-- Whether a number has the precision of the format, and is a multiple of its smallest number. -/
def Fits (t : FloatType) (x : ℚ) : Prop :=
  ∃ m e : ℤ, |m| < 2 ^ (t.fractionBits + 1) ∧ t.lowestExponent ≤ e ∧ x = (m : ℚ) * 2 ^ e

theorem Fits.withSign {t : FloatType} {x : ℚ} (h : t.Fits x) (negative : Bool) :
    t.Fits (Number.withSign negative x) := by
  obtain ⟨m, e, hm, he, rfl⟩ := h
  cases negative with
  | false => exact ⟨m, e, hm, he, rfl⟩
  | true => exact ⟨-m, e, by rwa [abs_neg], he, by simp [Number.withSign]⟩

/-- A number of the format that is no integer is small. -/
theorem Fits.eq_int_or_lt {t : FloatType} {v : ℚ} (h : t.Fits v) :
    (∃ k : ℤ, v = k) ∨ |v| < 2 ^ t.fractionBits := by
  obtain ⟨m, e, hm, -, rfl⟩ := h
  rcases le_or_gt 0 e with he | he
  · obtain ⟨d, rfl⟩ := Int.eq_ofNat_of_zero_le he
    exact .inl ⟨m * 2 ^ d, by push_cast; rw [zpow_natCast]⟩
  · right
    have hm' : |(m : ℚ)| < 2 ^ (t.fractionBits + 1) := by exact_mod_cast hm
    calc |(m : ℚ) * 2 ^ e| = |(m : ℚ)| * 2 ^ e := by rw [abs_mul, abs_of_pos (two_zpow_pos e)]
      _ ≤ |(m : ℚ)| * 2 ^ (-1 : ℤ) := by
          gcongr
          · exact one_le_two
          · omega
      _ < 2 ^ (t.fractionBits + 1) * 2 ^ (-1 : ℤ) := by gcongr
      _ = 2 ^ t.fractionBits := by
          rw [pow_succ, zpow_neg_one, mul_assoc, mul_inv_cancel₀ two_ne_zero, mul_one]

theorem value?_eq_some_iff {t : FloatType} {w : t.Word} {v : ℚ} :
    t.value? w = some v ↔
      ∃ negative m e, t.meaning w = .finite negative m e ∧
        Number.withSign negative (m * 2 ^ e) = v := by
  rw [value?]
  cases t.meaning w <;> simp [Number.toRat?]

/-- The value of a finite pattern has the precision of the format. -/
theorem fits_of_value? {t : FloatType} {w : t.Word} {v : ℚ} (h : t.value? w = some v) :
    t.Fits v := by
  obtain ⟨negative, m, e, hw, rfl⟩ := value?_eq_some_iff.mp h
  obtain ⟨hm, he, -⟩ := finite_bounds hw
  exact Fits.withSign ⟨m, e, by exact_mod_cast hm, he, rfl⟩ negative

/-- The value of a pattern as a count of quanta, which may be that of the next binade. -/
theorem value?_pattern (t : FloatType) (negative : Bool) {k r : ℕ}
    (hr : r ≤ 2 ^ (t.fractionBits + 1)) (hk : k = 0 ∨ 2 ^ t.fractionBits ≤ r)
    (hp : k * 2 ^ t.fractionBits + r < t.infinity) :
    t.value? (t.pattern negative (k * 2 ^ t.fractionBits + r)) =
      some (Number.withSign negative (r * 2 ^ (t.lowestExponent + k))) := by
  have hpos : 0 < 2 ^ t.fractionBits := Nat.two_pow_pos _
  rw [value?, meaning_pattern t negative hp]
  rw [Nat.pow_succ] at hr
  generalize 2 ^ t.fractionBits = b at *
  have hdiv : (k * b + r) / b = k + r / b := by
    rw [Nat.add_comm, Nat.add_mul_div_right _ _ hpos, Nat.add_comm]
  have hmod : (k * b + r) % b = r % b := by rw [Nat.mul_add_mod_self_right]
  rw [hdiv, hmod]
  by_cases hsmall : r < b
  · obtain rfl : k = 0 := by omega
    simp [Nat.div_eq_of_lt hsmall, Number.toRat?]
  · by_cases hcarry : r = 2 * b
    · -- the next binade, of which this is the first number
      subst hcarry
      have h2 : 2 * b / b = 2 := Nat.mul_div_cancel _ hpos
      have he : t.lowestExponent + (((k + 2 : ℕ) : ℤ) - 1) = t.lowestExponent + k + 1 := by omega
      rw [h2, Nat.mul_mod_left, Nat.add_zero, if_neg (by omega), Number.toRat?, he,
        zpow_add_one₀ two_ne_zero]
      refine congrArg (some <| Number.withSign negative ·) ?_
      push_cast
      ring
    · have h1 : r / b = 1 := by
        rw [Nat.div_eq_of_lt_le] <;> omega
      have hm : b + r % b = r := by
        rw [Nat.mod_eq_sub_mod (by omega), Nat.mod_eq_of_lt (by omega)]
        omega
      have he : t.lowestExponent + (((k + 1 : ℕ) : ℤ) - 1) = t.lowestExponent + k := by omega
      rw [h1, hm, if_neg (by omega), Number.toRat?, he]

/-! ### Quanta -/

/-- The count of quanta nearest to a quotient. -/
def quanta (t : FloatType) (num den : ℕ) : ℕ :=
  roundDiv (num <<< (-t.quantum num den).toNat) (den <<< (t.quantum num den).toNat)

theorem lowestExponent_le_quantum (t : FloatType) (num den : ℕ) :
    t.lowestExponent ≤ t.quantum num den :=
  le_max_left ..

/-- The magnitude of a quotient, by its quanta. -/
theorem magnitude_eq (t : FloatType) {num : ℕ} (hnum : num ≠ 0) (den : ℕ) :
    t.magnitude num den = min t.infinity
      ((t.quantum num den - t.lowestExponent).toNat * 2 ^ t.fractionBits + t.quanta num den) := by
  rw [magnitude, if_neg hnum, ← Nat.shiftLeft_eq]
  rfl

section Quanta

variable (t : FloatType) {num den : ℕ} (hden : 0 < den)
include hden

variable (num) in
/-- No integer is nearer to a quotient, counted in quanta. -/
theorem abs_quanta_sub_le (k : ℤ) :
    |(t.quanta num den : ℚ) - num / den / 2 ^ t.quantum num den| ≤
      |(k : ℚ) - num / den / 2 ^ t.quantum num den| := by
  rw [← shiftLeft_div_shiftLeft_neg]
  exact abs_roundDiv_sub_le _ (shiftLeft_pos hden _) k

theorem quanta_even_of_tie {k : ℤ} (hk : k ≠ t.quanta num den)
    (htie : |(k : ℚ) - num / den / 2 ^ t.quantum num den| =
      |(t.quanta num den : ℚ) - num / den / 2 ^ t.quantum num den|) :
    t.quanta num den % 2 = 0 := by
  rw [← shiftLeft_div_shiftLeft_neg] at htie
  exact roundDiv_even_of_tie _ (shiftLeft_pos hden _) hk htie

/-- A quotient between two integers is rounded to one between them. -/
theorem quanta_le {k : ℕ} (h : (num / den / 2 ^ t.quantum num den : ℚ) ≤ k) :
    t.quanta num den ≤ k := by
  have hnear := t.abs_quanta_sub_le num hden k
  rw [Int.cast_natCast, abs_of_nonneg (sub_nonneg.mpr h), abs_le] at hnear
  exact_mod_cast (by linarith : (t.quanta num den : ℚ) ≤ k)

theorem le_quanta {k : ℕ} (h : (k : ℚ) ≤ num / den / 2 ^ t.quantum num den) :
    k ≤ t.quanta num den := by
  have hnear := t.abs_quanta_sub_le num hden k
  rw [Int.cast_natCast, abs_of_nonpos (sub_nonpos.mpr h), abs_le] at hnear
  exact_mod_cast (by linarith : (k : ℚ) ≤ t.quanta num den)

variable (hnum : num ≠ 0)
include hnum

/-- In quanta, a quotient is below the next binade. -/
theorem div_quantum_lt :
    (num / den / 2 ^ t.quantum num den : ℚ) < (2 ^ (t.fractionBits + 1) : ℕ) := by
  have hq : floorLog2 num den - t.fractionBits ≤ t.quantum num den := le_max_right ..
  rw [div_lt_iff₀ (by positivity), Nat.cast_pow, Nat.cast_ofNat, ← zpow_natCast,
    ← zpow_add₀ two_ne_zero]
  refine lt_of_lt_of_le (lt_zpow_floorLog2_succ hnum hden) ?_
  exact zpow_le_zpow_right₀ one_le_two (by push_cast; omega)

/-- In quanta, a quotient reaches its binade unless the quantum is the smallest number. -/
theorem le_div_quantum (hq : t.quantum num den ≠ t.lowestExponent) :
    ((2 ^ t.fractionBits : ℕ) : ℚ) ≤ num / den / 2 ^ t.quantum num den := by
  have hq' : t.quantum num den = floorLog2 num den - t.fractionBits := by
    rw [quantum] at hq ⊢
    omega
  rw [le_div_iff₀ (by positivity), Nat.cast_pow, Nat.cast_ofNat, ← zpow_natCast,
    ← zpow_add₀ two_ne_zero]
  refine le_trans ?_ (zpow_floorLog2_le hnum hden)
  exact zpow_le_zpow_right₀ one_le_two (by omega)

end Quanta

/-! ### Rounding -/

/-- The largest number of a format, by its precision and its largest exponent. -/
theorem cast_largest (t : FloatType) : (t.largest : ℚ) =
    (2 ^ (t.fractionBits + 1) - 1 : ℕ) * 2 ^ (t.lowestExponent + (2 ^ t.exponentBits - 3 : ℕ)) := by
  have he : t.lowestExponent + (2 ^ t.exponentBits - 3 : ℕ) =
      (2 ^ (t.exponentBits - 1) - 1 - t.fractionBits : ℕ) := by
    cases t <;> rfl
  rw [he, zpow_natCast, largest, Nat.shiftLeft_eq, Nat.one_shiftLeft, Nat.one_shiftLeft,
    Nat.cast_mul, Nat.cast_pow, Nat.cast_ofNat]

section Round

variable (t : FloatType) {num den : ℕ} (hden : 0 < den) (hle : (num / den : ℚ) ≤ t.largest)
include hden hle

/-- The exponent of a quotient that is not beyond the largest number. -/
theorem quantum_le (hnum : num ≠ 0) :
    t.quantum num den ≤ t.lowestExponent + (2 ^ t.exponentBits - 3 : ℕ) := by
  have hlt : (t.largest : ℚ) < 2 ^
      (t.fractionBits + 1 + (t.lowestExponent + (2 ^ t.exponentBits - 3 : ℕ)) : ℤ) := by
    rw [cast_largest, zpow_add₀ two_ne_zero (t.fractionBits + 1 : ℤ)]
    have hprecision : ((2 ^ (t.fractionBits + 1) - 1 : ℕ) : ℚ) < 2 ^ (t.fractionBits + 1 : ℤ) := by
      exact_mod_cast Nat.sub_lt (Nat.two_pow_pos _) Nat.one_pos
    gcongr
  have h := (zpow_lt_zpow_iff_right₀ one_lt_two).mp
    (lt_of_le_of_lt (zpow_floorLog2_le hnum hden) (lt_of_le_of_lt hle hlt))
  rw [quantum]
  omega

/-- A quotient that is not beyond the largest number is not rounded to infinity. -/
theorem magnitude_lt (hnum : num ≠ 0) :
    (t.quantum num den - t.lowestExponent).toNat * 2 ^ t.fractionBits + t.quanta num den <
      t.infinity := by
  have hlow := t.lowestExponent_le_quantum num den
  have hq := t.quantum_le hden hle hnum
  have hr : t.quanta num den ≤ 2 ^ (t.fractionBits + 1) :=
    t.quanta_le hden (t.div_quantum_lt hden hnum).le
  have htop : t.infinity =
      (2 ^ t.exponentBits - 3) * 2 ^ t.fractionBits + 2 ^ (t.fractionBits + 1) := by
    cases t <;> rfl
  generalize hk : (t.quantum num den - t.lowestExponent).toNat = k
  have hk' : k ≤ 2 ^ t.exponentBits - 3 := by omega
  rcases Nat.lt_or_eq_of_le hk' with hk' | rfl
  · have hmul := Nat.mul_le_mul_right (2 ^ t.fractionBits) (Nat.succ_le_of_lt hk')
    have hpos := Nat.two_pow_pos t.fractionBits
    rw [Nat.succ_mul] at hmul
    omega
  · -- in the last binade the quotient is at most the largest number
    have hquantum : t.quantum num den = t.lowestExponent + (2 ^ t.exponentBits - 3 : ℕ) := by omega
    have hr' : t.quanta num den ≤ 2 ^ (t.fractionBits + 1) - 1 := by
      refine t.quanta_le hden ?_
      rwa [div_le_iff₀ (by positivity), hquantum, ← cast_largest]
    have hpos := Nat.two_pow_pos (t.fractionBits + 1)
    omega

omit hle in
/-- The value of a quotient that is not rounded to infinity; it is even exactly if its count of
quanta is. -/
theorem value?_round_of_lt (hlt : num ≠ 0 →
      (t.quantum num den - t.lowestExponent).toNat * 2 ^ t.fractionBits + t.quanta num den <
        t.infinity) (negative : Bool) :
    t.value? (t.round negative num den) =
        some (Number.withSign negative (t.quanta num den * 2 ^ t.quantum num den)) ∧
      (t.round negative num den).toNat % 2 = t.quanta num den % 2 := by
  by_cases hnum : num = 0
  · subst hnum
    have hr : t.quanta 0 den = 0 := Nat.le_zero.mp (t.quanta_le hden (by simp))
    have hp := t.value?_pattern negative (k := 0) (r := 0) (Nat.zero_le _) (.inl rfl)
      (by cases t <;> decide)
    rw [round, magnitude, if_pos rfl, hr]
    constructor
    · simpa [Number.cast_signed] using hp
    · cases t <;> cases negative <;> decide
  · have hlt := hlt hnum
    have hr : t.quanta num den ≤ 2 ^ (t.fractionBits + 1) :=
      t.quanta_le hden (t.div_quantum_lt hden hnum).le
    have hlow := t.lowestExponent_le_quantum num den
    rw [round, t.magnitude_eq hnum, Nat.min_eq_right hlt.le]
    constructor
    · rw [t.value?_pattern negative hr ?_ hlt, Int.toNat_of_nonneg (by omega), add_sub_cancel]
      by_cases hq : t.quantum num den = t.lowestExponent
      · left
        omega
      · exact .inr (t.le_quanta hden (t.le_div_quantum hden hnum hq))
    · rw [toNat_pattern t negative (lt_trans hlt t.infinity_lt)]
      generalize (t.quantum num den - t.lowestExponent).toNat = k
      cases t <;> cases negative <;> simp [fractionBits, bits] <;> omega

/-- The value of a rounded quotient that is not beyond the largest number. -/
theorem value?_round (negative : Bool) : t.value? (t.round negative num den) =
      some (Number.withSign negative (t.quanta num den * 2 ^ t.quantum num den)) ∧
    (t.round negative num den).toNat % 2 = t.quanta num den % 2 :=
  t.value?_round_of_lt hden (t.magnitude_lt hden hle) negative

end Round

/-! ### The nearest float -/

/-- Whether a pattern has the value that is nearest to a number among all finite patterns, and is
the even one of two that are equally near. -/
structure IsNearest (t : FloatType) (x : ℚ) (w : t.Word) (v : ℚ) : Prop where
  /-- The pattern is finite, with this value. -/
  value : t.value? w = some v
  /-- No finite pattern is nearer. -/
  nearest : ∀ w' v', t.value? w' = some v' → |v - x| ≤ |v' - x|
  /-- In a tie the pattern is even. -/
  even : ∀ w' v', t.value? w' = some v' → v' ≠ v → |v' - x| = |v - x| → w.toNat % 2 = 0

section Nearest

variable (t : FloatType) (num : ℕ) {den : ℕ}

variable (den) in
/-- A number of the format is a whole count of the quanta around a quotient, or it lies below the
binade of the quotient. -/
theorem exists_quanta_or_lt {u : ℚ} (hu : t.Fits u) :
    (∃ k : ℤ, u = k * 2 ^ t.quantum num den) ∨
      t.quantum num den ≠ t.lowestExponent ∧
        |u| < (2 ^ t.fractionBits : ℕ) * 2 ^ t.quantum num den := by
  obtain ⟨m, e, hm, he, rfl⟩ := hu
  rcases le_or_gt (t.quantum num den) e with hq | hq
  · left
    obtain ⟨d, rfl⟩ := Int.le.dest hq
    refine ⟨m * 2 ^ d, ?_⟩
    rw [zpow_add₀ two_ne_zero, zpow_natCast]
    push_cast
    ring
  · right
    refine ⟨by omega, ?_⟩
    have hm' : (|m| : ℚ) < 2 ^ (t.fractionBits + 1) := by exact_mod_cast hm
    calc |(m : ℚ) * 2 ^ e| = |(m : ℚ)| * 2 ^ e := by
          rw [abs_mul, abs_of_pos (two_zpow_pos e)]
      _ < 2 ^ (t.fractionBits + 1) * 2 ^ e := by gcongr
      _ = (2 ^ t.fractionBits : ℕ) * 2 ^ (e + 1) := by
          rw [zpow_add_one₀ two_ne_zero]
          push_cast
          ring
      _ ≤ (2 ^ t.fractionBits : ℕ) * 2 ^ t.quantum num den := by
          gcongr
          · exact one_le_two
          · omega

variable (hden : 0 < den)
include hden

/-- Rounded to quanta, a quotient is not moved further than to any number of the format, and in a
tie to an even count. -/
theorem abs_quanta_mul_sub_le {u : ℚ} (hu : t.Fits u) :
    |(t.quanta num den : ℚ) * 2 ^ t.quantum num den - num / den| ≤ |u - num / den| ∧
      (u ≠ t.quanta num den * 2 ^ t.quantum num den →
        |u - num / den| = |(t.quanta num den : ℚ) * 2 ^ t.quantum num den - num / den| →
          t.quanta num den % 2 = 0) := by
  have hpos : (0 : ℚ) < 2 ^ t.quantum num den := two_zpow_pos _
  rcases eq_or_ne num 0 with rfl | hnum
  · have hr : t.quanta 0 den = 0 := Nat.le_zero.mp (t.quanta_le hden (by simp))
    rw [hr]
    exact ⟨by simp, fun _ _ => rfl⟩
  -- a distance is that in quanta, times the quantum
  have hscale : ∀ k : ℚ, |k * 2 ^ t.quantum num den - num / den| =
      |k - num / den / 2 ^ t.quantum num den| * 2 ^ t.quantum num den := fun k => by
    rw [← abs_of_pos hpos, ← abs_mul, abs_of_pos hpos, sub_mul, div_mul_cancel₀ _ hpos.ne']
  rcases t.exists_quanta_or_lt num den hu with ⟨k, rfl⟩ | ⟨hq, hlt⟩
  · rw [hscale, hscale]
    refine ⟨mul_le_mul_of_nonneg_right (t.abs_quanta_sub_le num hden k) hpos.le, fun hne htie => ?_⟩
    refine t.quanta_even_of_tie hden (fun hk => hne ?_) (mul_right_cancel₀ hpos.ne' htie)
    rw [hk, Int.cast_natCast]
  · -- the quotient is between such a number and the first of its binade
    have hbinade := t.le_div_quantum hden hnum hq
    have hnear := t.abs_quanta_sub_le num hden (2 ^ t.fractionBits : ℕ)
    have hfirst : ((2 ^ t.fractionBits : ℕ) : ℚ) * 2 ^ t.quantum num den ≤ num / den :=
      (le_div_iff₀ hpos).mp hbinade
    have hless : |(t.quanta num den : ℚ) * 2 ^ t.quantum num den - num / den| <
        |u - num / den| := by
      calc |(t.quanta num den : ℚ) * 2 ^ t.quantum num den - num / den|
          ≤ |((2 ^ t.fractionBits : ℕ) : ℚ) * 2 ^ t.quantum num den - num / den| := by
            rw [hscale, hscale]
            exact mul_le_mul_of_nonneg_right hnear hpos.le
        _ = num / den - (2 ^ t.fractionBits : ℕ) * 2 ^ t.quantum num den := by
            rw [abs_sub_comm, abs_of_nonneg (sub_nonneg.mpr hfirst)]
        _ < num / den - u := sub_lt_sub_left ((le_abs_self u).trans_lt hlt) _
        _ ≤ |u - num / den| := by
            rw [abs_sub_comm]
            exact le_abs_self _
    exact ⟨hless.le, fun _ htie => absurd htie hless.ne'⟩

variable {num}

/-- The nearest float of a quotient that is not rounded to infinity. -/
theorem isNearest_round_of_lt (hlt : num ≠ 0 →
      (t.quantum num den - t.lowestExponent).toNat * 2 ^ t.fractionBits + t.quanta num den <
        t.infinity) (negative : Bool) :
    t.IsNearest (Number.withSign negative (num / den)) (t.round negative num den)
      (Number.withSign negative (t.quanta num den * 2 ^ t.quantum num den)) := by
  obtain ⟨hvalue, hparity⟩ := t.value?_round_of_lt hden hlt negative
  refine ⟨hvalue, fun w' v' hv' => ?_, fun w' v' hv' hne htie => ?_⟩
  · rw [Number.abs_sub_withSign, Number.abs_sub_withSign, Number.withSign_withSign]
    exact (t.abs_quanta_mul_sub_le num hden ((fits_of_value? hv').withSign negative)).1
  · rw [Number.abs_sub_withSign, Number.abs_sub_withSign, Number.withSign_withSign] at htie
    rw [hparity]
    refine (t.abs_quanta_mul_sub_le num hden ((fits_of_value? hv').withSign negative)).2 ?_ htie
    exact fun h => hne (by rw [← h, Number.withSign_withSign])

/-- **Rounding gives the nearest float** of a quotient that is not beyond the largest one. -/
theorem isNearest_round (hle : (num / den : ℚ) ≤ t.largest) (negative : Bool) :
    t.IsNearest (Number.withSign negative (num / den)) (t.round negative num den)
      (Number.withSign negative (t.quanta num den * 2 ^ t.quantum num den)) :=
  t.isNearest_round_of_lt hden (t.magnitude_lt hden hle) negative

/-- A quotient that is rounded to a finite float is rounded to the nearest one, also if it is beyond
the largest. -/
theorem isNearest_round_of_value? {negative : Bool} {v : ℚ}
    (hv : t.value? (t.round negative num den) = some v) :
    t.IsNearest (Number.withSign negative (num / den)) (t.round negative num den) v := by
  have hlt : num ≠ 0 → (t.quantum num den - t.lowestExponent).toNat * 2 ^ t.fractionBits +
      t.quanta num den < t.infinity := fun hnum => by
    by_contra hinfinite
    rw [round, t.magnitude_eq hnum, Nat.min_eq_left (not_lt.mp hinfinite), value?,
      meaning_pattern_infinity] at hv
    cases hv
  have hnear := t.isNearest_round_of_lt hden hlt negative
  rwa [← Option.some.inj (hv.symm.trans hnear.value)] at hnear

/-- A quotient that the format has is kept. -/
theorem value?_round_of_fits (hfits : t.Fits (num / den)) (hle : (num / den : ℚ) ≤ t.largest)
    (negative : Bool) :
    t.value? (t.round negative num den) = some (Number.withSign negative (num / den)) := by
  have hnear := (t.abs_quanta_mul_sub_le num hden hfits).1
  rw [sub_self, abs_zero, abs_nonpos_iff, sub_eq_zero] at hnear
  rw [(t.value?_round hden hle negative).1, hnear]

end Nearest

/-! ### Numbers as floats -/

/-- No finite pattern is beyond the largest one. -/
theorem abs_le_largest {t : FloatType} {w : t.Word} {v : ℚ} (h : t.value? w = some v) :
    |v| ≤ t.largest := by
  obtain ⟨negative, m, e, hw, rfl⟩ := value?_eq_some_iff.mp h
  obtain ⟨hm, -, he⟩ := finite_bounds hw
  rw [Number.abs_withSign, abs_of_nonneg (by positivity), cast_largest]
  gcongr
  · omega
  · exact one_le_two

section OfNumber

variable (t : FloatType) {n : Number} {x : ℚ} (hn : n.toRat? = some x) (hx : |x| ≤ t.largest)
include hn hx

/-- A number with a value is a quotient with a sign, and rounded as such. -/
theorem exists_round_of_toRat? : ∃ (negative : Bool) (num den : ℕ), 0 < den ∧
    (num / den : ℚ) ≤ t.largest ∧
    x = Number.withSign negative (num / den) ∧ t.ofNumber n = t.round negative num den := by
  cases n with
  | finite negative m e =>
    cases hn
    rw [Number.abs_withSign, abs_of_nonneg (by positivity)] at hx
    have hquotient := Number.numerator_div_denominator m e
    exact ⟨negative, Number.numerator m e, Number.denominator e, Number.denominator_pos e,
      hquotient ▸ hx, by rw [hquotient], rfl⟩
  | infinite | nan => cases hn

/-- Of a number that is not beyond the largest float, its float is the nearest one. -/
theorem isNearest_ofNumber : ∃ v, t.IsNearest x (t.ofNumber n) v := by
  obtain ⟨negative, num, den, hden, hle, rfl, hround⟩ := t.exists_round_of_toRat? hn hx
  rw [hround]
  exact ⟨_, t.isNearest_round hden hle negative⟩

/-- A number that the format has is kept. -/
theorem value?_ofNumber_of_fits (hfits : t.Fits x) : t.value? (t.ofNumber n) = some x := by
  obtain ⟨negative, num, den, hden, hle, rfl, hround⟩ := t.exists_round_of_toRat? hn hx
  have hquotient : t.Fits (num / den) := by
    simpa only [Number.withSign_withSign] using hfits.withSign negative
  rw [hround, t.value?_round_of_fits hden hquotient hle]

end OfNumber

/-- A nearest float is at most twice as far from zero, because zero is a float. -/
theorem IsNearest.abs_le {t : FloatType} {x : ℚ} {w : t.Word} {v : ℚ} (h : t.IsNearest x w v) :
    |v| ≤ 2 * |x| := by
  have hzero : t.value? (t.ofNumber (.ofInt 0)) = some ((0 : ℤ) : ℚ) :=
    t.value?_ofNumber_of_fits (Number.toRat?_ofInt 0) (by simp) ⟨0, t.lowestExponent, by simp⟩
  have hnear := h.nearest _ _ hzero
  rw [Int.cast_zero, zero_sub, abs_neg] at hnear
  have hback := abs_sub_abs_le_abs_sub v x
  linarith

/-! ### Numbers beyond every float -/

section Saturate

variable {t : FloatType} {n : Number} {x : ℚ}

/-- Whether a number is beyond the largest float is a comparison of integers. -/
theorem largest_lt_abs_iff {negative : Bool} {m : ℕ} {e : ℤ} :
    (t.largest : ℚ) < |Number.withSign negative (m * 2 ^ e)| ↔
      t.largest * Number.denominator e < Number.numerator m e := by
  have hpos : (0 : ℚ) < Number.denominator e := by exact_mod_cast Number.denominator_pos e
  rw [Number.abs_withSign, abs_of_nonneg (by positivity), ← Number.numerator_div_denominator,
    lt_div_iff₀ hpos]
  exact_mod_cast Iff.rfl

/-- A number that is not beyond the largest float is rounded. -/
theorem saturate_of_le (hn : n.toRat? = some x) (hx : |x| ≤ t.largest) :
    t.saturate n = t.ofNumber n := by
  cases n with
  | finite negative m e =>
    cases hn
    rw [saturate, if_neg (mt largest_lt_abs_iff.mpr (not_lt.mpr hx)), ofNumber]
  | infinite | nan => cases hn

/-- A number that is beyond the largest float becomes an infinity. -/
theorem meaning_saturate_of_lt (hn : n.toRat? = some x) (hx : t.largest < |x|) :
    ∃ negative, t.meaning (t.saturate n) = .infinite negative := by
  cases n with
  | finite negative m e =>
    cases hn
    rw [saturate, if_pos (largest_lt_abs_iff.mp hx)]
    exact ⟨negative, t.meaning_pattern_infinity negative⟩
  | infinite | nan => cases hn

end Saturate

end FloatType

end SegY
