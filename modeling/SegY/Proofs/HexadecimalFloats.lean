import SegY.Ibm
import SegY.Proofs.Conversion
import SegY.Proofs.RoundedValues

/-!
# Hexadecimal floats — as singles

Every pattern of a hexadecimal float means a rational of 24 bits.  As a single it is exact, except
far below one, where the precision of singles ends, and beyond all singles, where it becomes an
infinity.  So whatever is left of it as a single has the integer part that it had, because far below
one there is none.

A double holds every hexadecimal float exactly, whatever its exponent, so the way to a single can
lead through one (`Ibm.toDouble`).

* `Ibm.fits_or_lt`: a hexadecimal float is a number of single precision, or it is less than a half.
* `Ibm.value?_toFloat`: what fits among the singles keeps its integer part.
* `Ibm.toFloat_exact`: which single it becomes, with its sign, for all patterns.
-/

namespace SegY

namespace Ibm

variable {b : Bytes} {x : ℚ}

/-- Every pattern has a sign, 24 bits and an exponent of sixteen. -/
theorem exists_meaning (b : Bytes) : ∃ (negative : Bool) (m k : ℕ), m < 2 ^ 24 ∧ k < 128 ∧
    meaning b = .finite negative m (4 * ((k : ℤ) - 64) - 24) :=
  ⟨_, _, _, Nat.mod_lt _ (by decide), Nat.mod_lt _ (by decide), rfl⟩

theorem exists_value (b : Bytes) : ∃ x, (meaning b).toRat? = some x := by
  obtain ⟨negative, m, k, -, -, hb⟩ := exists_meaning b
  exact ⟨_, by rw [hb, Number.toRat?]⟩

/-- A hexadecimal float has single precision unless it is small. -/
theorem fits_or_lt (h : (meaning b).toRat? = some x) :
    FloatType.float32.Fits x ∨ |x| < 1 / 2 := by
  obtain ⟨negative, m, k, hm, -, hb⟩ := exists_meaning b
  rw [hb, Number.toRat?, Option.some.injEq] at h
  subst h
  rcases le_or_gt FloatType.float32.lowestExponent (4 * ((k : ℤ) - 64) - 24) with he | he
  · left
    refine FloatType.Fits.withSign ⟨m, _, ?_, he, by simp⟩ negative
    rw [abs_of_nonneg (Int.natCast_nonneg m)]
    exact_mod_cast hm
  · right
    have hexponent : 4 * ((k : ℤ) - 64) - 24 ≤ -25 := by
      have hlowest : FloatType.float32.lowestExponent = -149 := rfl
      omega
    have hm' : (m : ℚ) < 2 ^ 24 := by exact_mod_cast hm
    rw [Number.abs_withSign, abs_of_nonneg (by positivity)]
    calc (m : ℚ) * 2 ^ (4 * ((k : ℤ) - 64) - 24) ≤ m * 2 ^ (-25 : ℤ) := by
          gcongr
          exact one_le_two
      _ < 2 ^ 24 * 2 ^ (-25 : ℤ) := by gcongr
      _ = 1 / 2 := by norm_num

/-- What is not beyond all singles becomes a single of the same integer part. -/
theorem value?_toFloat (h : (meaning b).toRat? = some x) (hx : |x| ≤ FloatType.float32.largest) :
    ∃ v, FloatType.float32.value? (toFloat b) = some v ∧
      Number.towardZero v = Number.towardZero x := by
  rw [toFloat, FloatType.saturate_of_le h hx]
  rcases fits_or_lt h with hfits | hsmall
  · exact ⟨x, FloatType.float32.value?_ofNumber_of_fits h hx hfits, rfl⟩
  · obtain ⟨v, hv⟩ := FloatType.float32.isNearest_ofNumber h hx
    have hle := hv.abs_le
    refine ⟨v, hv.value, ?_⟩
    rw [Number.towardZero_eq_zero (by linarith), Number.towardZero_eq_zero (by linarith)]

/-- What is beyond all singles has no value as one. -/
theorem value?_toFloat_eq_none (h : (meaning b).toRat? = some x)
    (hx : FloatType.float32.largest < |x|) : FloatType.float32.value? (toFloat b) = none := by
  obtain ⟨negative, hinfinite⟩ := FloatType.meaning_saturate_of_lt h hx
  exact congrArg Number.toRat? hinfinite

/-! ### Signs and magnitudes -/

/-- The double of four bytes. -/
def toDouble (b : Bytes) : FloatType.float64.Word := FloatType.float64.ofNumber (meaning b)

/-- What the parts of a pattern mean. -/
theorem hasMagnitude_meaning (b₀ b₁ b₂ b₃ : UInt8) :
    (meaning [b₀, b₁, b₂, b₃]).HasMagnitude (decide (128 ≤ b₀.toNat))
      ((2 ^ 16 * b₁.toNat + 2 ^ 8 * b₂.toNat + b₃.toNat : ℕ) / 2 ^ 24 *
        16 ^ (((b₀.toNat % 128 : ℕ) : ℤ) - 64)) := by
  have h₀ := b₀.toNat_lt
  have h₁ := b₁.toNat_lt
  have h₂ := b₂.toNat_lt
  have h₃ := b₃.toNat_lt
  have hword : ByteOrder.big.load [b₀, b₁, b₂, b₃] =
      2 ^ 24 * b₀.toNat + (2 ^ 16 * b₁.toNat + 2 ^ 8 * b₂.toNat + b₃.toNat) := by
    simp only [ByteOrder.load, ByteOrder.arrange, List.reverse_cons, List.reverse_nil,
      List.nil_append, List.cons_append, Bytes.toNat]
    omega
  have hfraction : 2 ^ 16 * b₁.toNat + 2 ^ 8 * b₂.toNat + b₃.toNat < 2 ^ 24 := by omega
  generalize 2 ^ 16 * b₁.toNat + 2 ^ 8 * b₂.toNat + b₃.toNat = fraction at *
  refine ⟨fraction, 4 * (((b₀.toNat % 128 : ℕ) : ℤ) - 64) - 24, ?_, ?_⟩
  · have hsign : ((2 ^ 24 * b₀.toNat + fraction) >>> 31 % 2 == 1) = decide (128 ≤ b₀.toNat) := by
      rw [Nat.shiftRight_eq_div_pow, Bool.eq_iff_iff, beq_iff_eq, decide_eq_true_eq]
      omega
    have hexponent : (2 ^ 24 * b₀.toNat + fraction) >>> 24 % 128 = b₀.toNat % 128 := by
      rw [Nat.shiftRight_eq_div_pow]
      omega
    have hrest : (2 ^ 24 * b₀.toNat + fraction) % (1 <<< 24) = fraction := by
      rw [Nat.one_shiftLeft]
      omega
    rw [meaning, hword, hsign, hexponent, hrest]
    rfl
  · rw [zpow_sub₀ two_ne_zero, zpow_mul]
    norm_num
    ring

section Magnitude

variable {negative : Bool} (h : (meaning b).HasMagnitude negative x)
include h

theorem exists_magnitude : ∃ m k : ℕ, m < 2 ^ 24 ∧ k < 128 ∧
    x = m * 2 ^ (4 * ((k : ℤ) - 64) - 24) := by
  obtain ⟨negative', m, k, hm, hk, hb⟩ := exists_meaning b
  obtain ⟨m', e', hb', rfl⟩ := h
  cases hb.symm.trans hb'
  exact ⟨m, k, hm, hk, rfl⟩

/-- A hexadecimal float that is no smaller than the normal singles has their precision. -/
theorem fits_of_le (hx : 2 ^ (-126 : ℤ) ≤ x) : FloatType.float32.Fits x := by
  obtain ⟨m, k, hm, -, rfl⟩ := exists_magnitude h
  have hm' : (m : ℚ) < 2 ^ (24 : ℤ) := by exact_mod_cast hm
  refine ⟨m, _, ?_, ?_, by rw [Int.cast_natCast]⟩
  · rw [abs_of_nonneg (Int.natCast_nonneg m)]
    exact_mod_cast hm
  · have hlt : (2 : ℚ) ^ (-126 : ℤ) < 2 ^ (24 + (4 * ((k : ℤ) - 64) - 24)) := by
      rw [zpow_add₀ two_ne_zero]
      exact hx.trans_lt (by gcongr)
    have hexponent := (zpow_lt_zpow_iff_right₀ one_lt_two).mp hlt
    have hlowest : FloatType.float32.lowestExponent = -149 := rfl
    omega

/-- A hexadecimal float that is below the next power of two is not beyond the largest single: if its
exponent is larger, then its fraction has fewer digits. -/
theorem le_largest_of_lt (hx : x < 2 ^ 128) : x ≤ FloatType.float32.largest := by
  have hlargest : (FloatType.float32.largest : ℚ) = (2 ^ 24 - 1 : ℕ) * 2 ^ (104 : ℤ) :=
    FloatType.float32.cast_largest
  obtain ⟨m, k, hm, -, rfl⟩ := exists_magnitude h
  rw [hlargest]
  rcases le_or_gt (4 * ((k : ℤ) - 64) - 24) 104 with he | he
  · gcongr
    · omega
    · exact one_le_two
  · obtain ⟨d, hd⟩ := Int.le.dest he.le
    have hx' : ((m * 2 ^ d : ℕ) : ℚ) * 2 ^ (104 : ℤ) < (2 ^ 24 : ℕ) * 2 ^ (104 : ℤ) := by
      rw [← hd, zpow_add₀ two_ne_zero, zpow_natCast] at hx
      push_cast
      calc ((m : ℚ) * 2 ^ d) * 2 ^ (104 : ℤ) = m * (2 ^ (104 : ℤ) * 2 ^ d) := by ring
        _ < 2 ^ 128 := hx
        _ = 2 ^ 24 * 2 ^ (104 : ℤ) := by norm_num
    have hcount : m * 2 ^ d < 2 ^ 24 := by
      exact_mod_cast lt_of_mul_lt_mul_right hx' (two_zpow_pos 104).le
    calc (m : ℚ) * 2 ^ (4 * ((k : ℤ) - 64) - 24) = (m * 2 ^ d : ℕ) * 2 ^ (104 : ℤ) := by
          rw [← hd, zpow_add₀ two_ne_zero, zpow_natCast]
          push_cast
          ring
      _ ≤ (2 ^ 24 - 1 : ℕ) * 2 ^ (104 : ℤ) := by
          gcongr
          omega

/-- Every hexadecimal float is a double. -/
theorem hasMagnitude_toDouble :
    (FloatType.float64.meaning (toDouble b)).HasMagnitude negative x := by
  obtain ⟨m, k, hm, hk, hx⟩ := exists_magnitude h
  refine FloatType.hasMagnitude_ofNumber_of_fits h ?_ ?_
  · refine ⟨m, 4 * ((k : ℤ) - 64) - 24, ?_, ?_, by rw [hx, Int.cast_natCast]⟩
    · rw [abs_of_nonneg (Int.natCast_nonneg m)]
      exact lt_trans (by exact_mod_cast hm) (by decide : (2 : ℤ) ^ 24 < 2 ^ 53)
    · have hlowest : FloatType.float64.lowestExponent = -1074 := rfl
      omega
  · have hm' : (m : ℚ) ≤ 2 ^ 24 := by exact_mod_cast hm.le
    have hlargest : (2 : ℚ) ^ 252 ≤ FloatType.float64.largest := by
      exact_mod_cast (by decide : 2 ^ 252 ≤ FloatType.float64.largest)
    have hpow : (2 : ℚ) ^ (4 * ((k : ℤ) - 64) - 24) ≤ 2 ^ (228 : ℤ) :=
      zpow_le_zpow_right₀ one_le_two (by omega)
    calc x = m * 2 ^ (4 * ((k : ℤ) - 64) - 24) := hx
      _ ≤ 2 ^ 24 * 2 ^ (228 : ℤ) := by gcongr
      _ = 2 ^ 252 := by norm_num
      _ ≤ FloatType.float64.largest := hlargest

/-- The way through a double leads to the same single. -/
theorem toFloat_eq_convert : toFloat b = FloatType.float32.convert .float64 (toDouble b) :=
  FloatType.saturate_congr h (hasMagnitude_toDouble h)

end Magnitude

/-- **Hexadecimal floats are exact where singles are.**  Take any four bytes, normalised or not.
A double holds the number exactly, and rounding this double gives the single.  Zeros keep their
sign, and what is between the smallest normal single and the power of two above all singles is kept
exactly.  From that power of two on they become infinities of their sign; and below the normal
singles they become the nearest multiple of the smallest single, in a tie the even one, with their
sign. -/
theorem toFloat_exact (b₀ b₁ b₂ b₃ : UInt8) :
    toFloat [b₀, b₁, b₂, b₃] = FloatType.float32.convert .float64 (toDouble [b₀, b₁, b₂, b₃]) ∧
    let stored := [b₀, b₁, b₂, b₃]
    let negative := decide (128 ≤ b₀.toNat)
    let exponent : ℕ := b₀.toNat % 128
    let fraction : ℕ := 2 ^ 16 * b₁.toNat + 2 ^ 8 * b₂.toNat + b₃.toNat
    let x : ℚ := fraction / 2 ^ 24 * 16 ^ ((exponent : ℤ) - 64)
    let single := FloatType.float32.meaning (toFloat stored)
    (x = 0 ∨ 2 ^ (-126 : ℤ) ≤ x ∧ x < 2 ^ 128 → single.HasMagnitude negative x) ∧
    (2 ^ 128 ≤ x → single = .infinite negative) ∧
    (0 < x → x < 2 ^ (-126 : ℤ) → ∃ k, IsNearestInteger (x / 2 ^ (-149 : ℤ)) k ∧
      single.HasMagnitude negative (k * 2 ^ (-149 : ℤ))) ∧
    (FloatType.float64.meaning (toDouble stored)).HasMagnitude negative x := by
  refine ⟨toFloat_eq_convert (hasMagnitude_meaning b₀ b₁ b₂ b₃), ?_⟩
  intro stored negative exponent fraction x single
  have h : (meaning stored).HasMagnitude negative x := hasMagnitude_meaning b₀ b₁ b₂ b₃
  have hrounded : x < 2 ^ 128 →
      single = FloatType.float32.meaning (FloatType.float32.ofNumber (meaning stored)) := fun hx =>
    congrArg FloatType.float32.meaning
      (FloatType.saturate_of_hasMagnitude_le h (le_largest_of_lt h hx))
  refine ⟨?exact, ?beyond, ?below, hasMagnitude_toDouble h⟩
  case exact =>
    rintro (hzero | ⟨hlow, hhigh⟩)
    · have hx : x < 2 ^ 128 := hzero ▸ by norm_num
      have hfits : FloatType.float32.Fits x :=
        hzero ▸ ⟨0, FloatType.float32.lowestExponent, by simp⟩
      rw [hrounded hx]
      exact FloatType.hasMagnitude_ofNumber_of_fits h hfits (le_largest_of_lt h hx)
    · rw [hrounded hhigh]
      exact FloatType.hasMagnitude_ofNumber_of_fits h (fits_of_le h hlow) (le_largest_of_lt h hhigh)
  case beyond =>
    intro hx
    have hgt : FloatType.float32.largest < x := by
      have hlargest : (FloatType.float32.largest : ℚ) < 2 ^ 128 := by
        exact_mod_cast (by decide : FloatType.float32.largest < 2 ^ 128)
      exact hlargest.trans_le hx
    show FloatType.float32.meaning (FloatType.float32.saturate (meaning stored)) = _
    rw [FloatType.saturate_of_hasMagnitude_gt h hgt, FloatType.meaning_pattern_infinity]
  case below =>
    intro _ hx
    have hx' : x < 2 ^ 128 := hx.trans (by norm_num)
    rw [hrounded hx']
    exact FloatType.exists_hasMagnitude_ofNumber (t := .float32) h hx

/-- The fraction of a 1 does not have to be normalised. -/
example : toFloat [0x46, 0, 0, 1] = 0x3F800000 := by decide

end Ibm

end SegY
