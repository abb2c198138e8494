import SegY.Proofs.IntegerScaling
import SegY.Proofs.RoundedValues

/-!
# Coordinate scaling by reciprocals

A multiplier such as 0.01 stands for the reciprocal of an integer, by which a header is to divide.
But the multiplier is the float nearest to that reciprocal, the scalar is the integer part of a
double nearest to the reciprocal of the multiplier, and where the multiplier is too far above, that
integer part is one less than the integer.

How far is too far is known exactly.  The double of a number beside an integer is not below the
integer if the number is at most half a quantum below it, because as a count of quanta the integer
is even (`FloatType.le_quanta_beside_iff`).  A multiplier in single precision is not above the
reciprocal, or above it by more than that (`CoordinateScalar.one_add_le_mul_of_single`).

* `FloatType.exists_double_beside`: the integer part of the double of a number beside an integer.
* `CoordinateScalar.exists_scalar_of_reciprocal`: the scalar of a reciprocal multiplier.
* `CoordinateScalar.reciprocal_scalar`: when it is the integer.
-/

namespace SegY

namespace FloatType

/-! ### Doubles beside an integer -/

section Beside

variable {num den k : ℕ} (hden : 0 < den) (hnear : |(num / den : ℚ) - k| < 1 / 2)
  (hbinade : (2 : ℚ) ^ k.log2 ≤ num / den)
include hden hnear hbinade

/-- In the binade of an integer, the quantum is by the bits of the integer. -/
theorem quantum_beside : float64.quantum num den = (k.log2 : ℤ) - 52 := by
  have hnum : num ≠ 0 := by
    rintro rfl
    have hpos : (0 : ℚ) < 2 ^ k.log2 := by positivity
    simp at hbinade
    linarith
  have hlow : (2 : ℚ) ^ (k.log2 : ℤ) ≤ num / den := by rwa [zpow_natCast]
  have hhigh : (num / den : ℚ) < 2 ^ ((k.log2 : ℤ) + 1) := by
    have hupper := (abs_lt.mp hnear).2
    have hsucc : (k : ℚ) + 1 ≤ 2 ^ ((k.log2 : ℤ) + 1) := by exact_mod_cast Nat.lt_log2_self
    linarith
  have h₁ := (zpow_lt_zpow_iff_right₀ one_lt_two).mp
    ((zpow_floorLog2_le hnum hden).trans_lt hhigh)
  have h₂ := (zpow_lt_zpow_iff_right₀ one_lt_two).mp
    (hlow.trans_lt (lt_zpow_floorLog2_succ hnum hden))
  have hlowest : float64.lowestExponent = -1074 := rfl
  have hfraction : (float64.fractionBits : ℤ) = 52 := rfl
  rw [quantum]
  omega

variable (hk : k < 2 ^ 52)
include hk

/-- The double of a number beside an integer is not below the integer exactly if the number is at
most half a quantum below it: as a count of quanta the integer is even. -/
theorem le_quanta_beside_iff :
    (k : ℚ) ≤ float64.quanta num den * 2 ^ float64.quantum num den ↔
      (k : ℚ) - 2 ^ ((k.log2 : ℤ) - 53) ≤ num / den := by
  have hlog : k.log2 < 52 := by
    rcases Nat.eq_zero_or_pos k with rfl | hpos
    · decide
    · exact (Nat.log2_lt hpos.ne').mpr hk
  obtain ⟨n, hn⟩ : ∃ n, k.log2 + (n + 1) = 52 := ⟨51 - k.log2, by omega⟩
  have hquantum : float64.quantum num den = -((n : ℤ) + 1) := by
    rw [quantum_beside hden hnear hbinade]
    omega
  have hhalf : (2 : ℚ) ^ ((k.log2 : ℤ) - 53) = 1 / 2 * 2 ^ float64.quantum num den := by
    have hexponent : (k.log2 : ℤ) - 53 = float64.quantum num den - 1 := by omega
    rw [hexponent, zpow_sub_one₀ two_ne_zero, mul_comm, one_div]
  have hpos : (0 : ℚ) < 2 ^ float64.quantum num den := two_zpow_pos _
  have hcount : (k : ℚ) = (k * 2 ^ (n + 1) : ℕ) * 2 ^ float64.quantum num den := by
    rw [hquantum, Nat.cast_mul, Nat.cast_pow, Nat.cast_ofNat, mul_assoc, ← zpow_natCast,
      ← zpow_add₀ two_ne_zero]
    simp
  have heven : k * 2 ^ (n + 1) % 2 = 0 := by
    rw [Nat.pow_succ, ← Nat.mul_assoc, Nat.mul_mod_left]
  have hnearest := isNearestInteger_quanta (t := float64) num hden
  rw [hhalf]
  conv_lhs => rw [hcount]
  conv_rhs => rw [hcount]
  rw [mul_le_mul_iff_left₀ hpos, Nat.cast_le, hnearest.even_le_iff heven, ← sub_mul,
    le_div_iff₀ hpos]

/-- A number beside an integer is rounded to a double whose integer part is that integer, or one
less if the number is more than half a quantum below it. -/
theorem exists_double_beside : ∃ d, float64.IsNearest (num / den) (float64.round false num den) d ∧
    Number.towardZero d = if (k : ℚ) - 2 ^ ((k.log2 : ℤ) - 53) ≤ num / den then (k : ℤ)
      else k - 1 := by
  obtain ⟨hlower, hupper⟩ := abs_lt.mp hnear
  have hk' : (k : ℚ) + 1 ≤ 2 ^ 52 := by exact_mod_cast hk
  have hle : (num / den : ℚ) ≤ float64.largest := by
    have hlargest : (2 ^ 52 : ℚ) ≤ float64.largest := by
      exact_mod_cast (by decide : 2 ^ 52 ≤ float64.largest)
    linarith
  have hround := float64.isNearest_round hden hle false
  simp only [Number.withSign, Bool.false_eq_true, if_false] at hround
  refine ⟨_, hround, ?_⟩
  have hbeside := le_quanta_beside_iff hden hnear hbinade hk
  generalize (float64.quanta num den : ℚ) * 2 ^ float64.quantum num den = d at *
  -- the integer itself is a double, so the nearest one is less than one from it
  have hint : |(k : ℤ)| < 2 ^ (float64.fractionBits + 1) := by
    rw [Nat.abs_cast]
    exact_mod_cast hk.trans (by decide : 2 ^ 52 < 2 ^ (float64.fractionBits + 1))
  have hdouble := float64.value?_ofNumber_of_fits (Number.toRat?_ofInt k)
    (abs_le_largest_of_int hint) (fits_of_int hint)
  have hclose := hround.nearest _ _ hdouble
  rw [Int.cast_natCast, abs_sub_comm (k : ℚ)] at hclose
  obtain ⟨hdlower, hdupper⟩ := abs_lt.mp (hclose.trans_lt hnear)
  have hone : (1 : ℚ) ≤ k := by
    have hpower : (1 : ℚ) ≤ 2 ^ k.log2 := one_le_pow₀ one_le_two
    have hpos : (0 : ℚ) < k := by linarith
    exact_mod_cast hpos
  rw [Number.towardZero, if_pos (by linarith)]
  split
  · next hd =>
    rw [Int.floor_eq_iff, Int.cast_natCast]
    exact ⟨hbeside.mpr hd, by linarith⟩
  · next hd =>
    have hbelow : d < k := not_le.mp (mt hbeside.mp hd)
    rw [Int.floor_eq_iff, Int.cast_sub, Int.cast_natCast, Int.cast_one]
    exact ⟨by linarith, by linarith⟩

end Beside

end FloatType

/-! ### Multipliers below one -/

namespace CoordinateScalar

variable {t : FloatType} {w : t.Word} {v : ℚ}

/-- The scalar of a multiplier between zero and one is the negated integer part of its reciprocal as
a double. -/
theorem exists_ofMultiplier_of_lt_one (hw : t.value? w = some v) (hpos : 0 < v) (hlt : v < 1) :
    ∃ num den : ℕ, 0 < den ∧ (num / den : ℚ) = 1 / v ∧
      ofMultiplier (.floating t) w =
        (toInt16 .float64 (FloatType.float64.round false num den)).map fun s => ⟨w, -s⟩ := by
  obtain ⟨negative, m, e, hmeaning, rfl⟩ := FloatType.value?_eq_some_iff.mp hw
  have hnonneg : (0 : ℚ) ≤ m * 2 ^ e := by positivity
  cases negative with
  | true =>
    rw [Number.withSign, if_pos rfl] at hpos
    linarith
  | false =>
    rw [Number.withSign, if_neg Bool.false_ne_true] at hpos hlt ⊢
    have hquotient := Number.numerator_div_denominator m e
    have hden : (0 : ℚ) < Number.denominator e := by exact_mod_cast Number.denominator_pos e
    have hnum : 0 < Number.numerator m e := by
      rw [← hquotient, div_pos_iff_of_pos_right hden] at hpos
      exact_mod_cast hpos
    have hbelow : Number.numerator m e < Number.denominator e := by
      rw [← hquotient, div_lt_one hden] at hlt
      exact_mod_cast hlt
    have hm : m ≠ 0 := by
      rintro rfl
      simp at hpos
    have hnumber : (SampleType.floating t).number w = .finite false m e := hmeaning
    have hpositive : (Number.finite false m e).isPositive = true := by
      simpa [Number.isPositive] using hm
    have hless : (Number.finite false m e).compareOne = .lt := Nat.compare_eq_lt.mpr hbelow
    refine ⟨Number.numerator 1 0 * Number.denominator e,
      Number.denominator 0 * Number.numerator m e, ?_, ?_, ?_⟩
    · exact Nat.mul_pos (Number.denominator_pos 0) hnum
    · have hone : Number.numerator 1 0 = 1 ∧ Number.denominator 0 = 1 := ⟨rfl, rfl⟩
      rw [← hquotient, hone.1, hone.2, one_mul, one_mul, one_div_div]
    · simp only [ofMultiplier, hnumber, hpositive, hless, if_true]
      rfl

/-! ### The nearest float of a reciprocal -/

theorem one_div_le_largest (t : FloatType) {k : ℕ} (hk : 0 < k) : (1 / k : ℚ) ≤ t.largest := by
  have hone : (1 : ℚ) ≤ t.largest := by exact_mod_cast (by cases t <;> decide : 1 ≤ t.largest)
  refine le_trans (div_le_one_of_le₀ ?_ (Nat.cast_nonneg k)) hone
  exact_mod_cast hk

/-- A reciprocal has a nearest float. -/
theorem exists_isNearest_reciprocal (t : FloatType) {k : ℕ} (hk : 0 < k) :
    ∃ v, t.IsNearest (1 / k) (t.round false 1 k) v := by
  have hle : ((1 : ℕ) / k : ℚ) ≤ t.largest := by simpa using one_div_le_largest t hk
  have hround := t.isNearest_round hk hle false
  simp only [Number.withSign, Bool.false_eq_true, if_false, Nat.cast_one] at hround
  exact ⟨_, hround⟩

section Reciprocal

variable {k : ℕ} (hlow : 2 ≤ k) (hhigh : k ≤ 32767) (h : t.IsNearest (1 / k) w v)
include hlow hhigh h

/-- The multiplier that stands for a reciprocal is one to at least 24 bits. -/
theorem abs_mul_sub_one_le : |v * k - 1| ≤ 2 ^ (-24 : ℤ) := by
  have hpos : (0 : ℚ) < k := by exact_mod_cast Nat.lt_of_lt_of_le Nat.two_pos hlow
  have hk : (k : ℚ) ≤ 32767 := by exact_mod_cast hhigh
  have hnormal : (2 : ℚ) ^ (t.lowestExponent + t.fractionBits) ≤ 1 / k := by
    rw [le_div_iff₀ hpos]
    calc (2 : ℚ) ^ (t.lowestExponent + t.fractionBits) * k ≤ 2 ^ (-15 : ℤ) * 32767 := by
          gcongr
          · exact one_le_two
          · cases t <;> decide
      _ ≤ 1 := by norm_num
  have hlargest := one_div_le_largest t (by omega : 0 < k)
  have hnear : t.IsNearest ((1 : ℕ) / k) w v := by rwa [Nat.cast_one]
  have herror := hnear.abs_sub_le one_ne_zero (by omega) (by rwa [Nat.cast_one])
    (by rwa [Nat.cast_one])
  rw [Nat.cast_one] at herror
  calc |v * k - 1| = |v - 1 / k| * k := by
        rw [← abs_of_pos hpos, ← abs_mul, abs_of_pos hpos, sub_mul, div_mul_cancel₀ _ hpos.ne']
    _ ≤ 1 / k * 2 ^ (-(t.fractionBits : ℤ) - 1) * k := by gcongr
    _ = 2 ^ (-(t.fractionBits : ℤ) - 1) := by field_simp
    _ ≤ 2 ^ (-24 : ℤ) := by
        gcongr
        · exact one_le_two
        · cases t <;> decide

theorem reciprocal_bounds : 0 < v ∧ v < 1 ∧ |1 / v - k| < 1 / 2 := by
  have hlow' : (2 : ℚ) ≤ k := by exact_mod_cast hlow
  have hhigh' : (k : ℚ) ≤ 32767 := by exact_mod_cast hhigh
  have herror := abs_mul_sub_one_le hlow hhigh h
  norm_num at herror
  obtain ⟨hbelow, habove⟩ := abs_le.mp herror
  have hpos : 0 < v := by
    by_contra hneg
    have : v * k ≤ 0 := mul_nonpos_of_nonpos_of_nonneg (not_lt.mp hneg) (by linarith)
    linarith
  have htwice : v * 2 ≤ v * k := by gcongr
  have hlargest : v * k ≤ v * 32767 := by gcongr
  refine ⟨hpos, by linarith, ?_⟩
  rw [abs_lt, lt_sub_iff_add_lt, sub_lt_iff_lt_add, lt_div_iff₀ hpos, div_lt_iff₀ hpos]
  constructor <;> linarith

/-- The multiplier that stands for the reciprocal of a power of two is exact. -/
theorem eq_one_div_of_two_pow {n : ℕ} (hpower : k = 2 ^ n) : v = 1 / k := by
  have hn : n < 15 := by
    rw [← Nat.pow_lt_pow_iff_right one_lt_two, ← hpower]
    omega
  have hfits : t.Fits ((1 : ℕ) / k) := by
    refine ⟨1, -n, ?_, ?_, ?_⟩
    · cases t <;> decide
    · have hlowest : t.lowestExponent ≤ -15 := by cases t <;> decide
      omega
    · rw [hpower, zpow_neg, zpow_natCast, Nat.cast_pow]
      norm_num
  have hle : ((1 : ℕ) / k : ℚ) ≤ t.largest := by
    simpa using one_div_le_largest t (by omega : 0 < k)
  have hnear := h.nearest _ _ (t.value?_round_of_fits (by omega) hfits hle false)
  simpa [Number.withSign, sub_eq_zero] using hnear

/-- The reciprocal of the multiplier is in the binade of the integer. -/
theorem two_pow_log2_le : (2 : ℚ) ^ k.log2 ≤ 1 / v := by
  rcases (Nat.log2_self_le (by omega : k ≠ 0)).eq_or_lt with hpower | hlt
  · rw [eq_one_div_of_two_pow hlow hhigh h hpower.symm, one_div_one_div]
    exact_mod_cast hpower.le
  · have hsucc : (2 : ℚ) ^ k.log2 + 1 ≤ k := by exact_mod_cast hlt
    have hbelow := (abs_lt.mp (reciprocal_bounds hlow hhigh h).2.2).1
    linarith

/-- The scalar of a multiplier that stands for the reciprocal of an integer: the negated integer
part of the double that is nearest to the reciprocal of the multiplier. -/
theorem exists_scalar_of_reciprocal : ∃ c, ofMultiplier (.floating t) w = .ok c ∧
    c.multiplier = w ∧ ∃ w' d, FloatType.float64.IsNearest (1 / v) w' d ∧
      c.scalar.toInt = -Number.towardZero d ∧
      Number.towardZero d =
        if (k : ℚ) - 2 ^ ((k.log2 : ℤ) - 53) ≤ 1 / v then (k : ℤ) else k - 1 := by
  obtain ⟨hpos, hlt, hbeside⟩ := reciprocal_bounds hlow hhigh h
  obtain ⟨num, den, hden, hquotient, hmultiplier⟩ := exists_ofMultiplier_of_lt_one h.value hpos hlt
  have hbinade := two_pow_log2_le hlow hhigh h
  rw [← hquotient] at hbeside hbinade
  obtain ⟨d, hd, hpart⟩ := FloatType.exists_double_beside hden hbeside hbinade (by omega)
  rw [hquotient] at hd hpart
  have hbounds : 1 ≤ Number.towardZero d ∧ Number.towardZero d ≤ 32767 := by
    rw [hpart]
    split <;> omega
  have hscalar : (Int16.ofInt (Number.towardZero d)).toInt = Number.towardZero d :=
    Int16.toInt_ofInt_of_le (by omega) (by omega)
  have hstored : toInt16 .float64 (FloatType.float64.round false num den) =
      .ok (Int16.ofInt (Number.towardZero d)) :=
    toInt16_eq_ok_iff.mpr ⟨d, hd.value, hscalar⟩
  refine ⟨⟨w, -Int16.ofInt (Number.towardZero d)⟩, ?_, rfl, _, d, hd, ?_, hpart⟩
  · rw [hmultiplier, hstored]
    rfl
  · rw [Int16.toInt_neg, hscalar, Int.bmod_eq_of_le (by omega) (by omega)]

/-- In single precision a multiplier above the reciprocal is so far above it that its own reciprocal
is no longer rounded to the integer. -/
theorem one_add_le_mul_of_single (ht : t = .float32) (hgt : 1 / k < v) :
    1 + 2 ^ (-38 : ℤ) ≤ v * k := by
  obtain ⟨hpos, hlt, -⟩ := reciprocal_bounds hlow hhigh h
  have hk : (0 : ℚ) < k := by exact_mod_cast Nat.lt_of_lt_of_le Nat.two_pos hlow
  have hhigh' : (k : ℚ) ≤ 32767 := by exact_mod_cast hhigh
  subst ht
  obtain ⟨m, e, hm, -, rfl⟩ := FloatType.fits_of_value? h.value
  have hscale := two_zpow_pos e
  have hm₀ : 0 < m := by exact_mod_cast pos_of_mul_pos_left hpos hscale.le
  have hm₁ : (1 : ℚ) ≤ m := by exact_mod_cast hm₀
  have hm₂ : (m : ℚ) < 2 ^ (24 : ℤ) := by
    rw [abs_of_pos hm₀] at hm
    exact_mod_cast hm
  -- the quantum of the multiplier is at least that of 2 ^ (-15)
  have hsmall : (2 : ℚ) ^ (-15 : ℤ) < 1 / k := by
    rw [lt_div_iff₀ hk]
    norm_num
    linarith
  have he : -39 < e := by
    rw [← zpow_lt_zpow_iff_right₀ (one_lt_two : (1 : ℚ) < 2), ← mul_lt_mul_iff_right₀
      (two_zpow_pos 24), ← zpow_add₀ two_ne_zero]
    calc (2 : ℚ) ^ ((24 : ℤ) + -39) < 1 / k := hsmall
      _ < m * 2 ^ e := hgt
      _ < 2 ^ (24 : ℤ) * 2 ^ e := by gcongr
  have he' : e < 0 := by
    rw [← zpow_lt_one_iff_right₀ (one_lt_two : (1 : ℚ) < 2)]
    calc (2 : ℚ) ^ e ≤ m * 2 ^ e := le_mul_of_one_le_left hscale.le hm₁
      _ < 1 := hlt
  obtain ⟨n, rfl⟩ : ∃ n : ℕ, e = -n := ⟨(-e).toNat, by omega⟩
  have hcount : 2 ^ n + 1 ≤ m * k := by
    rw [div_lt_iff₀ hk, mul_right_comm, zpow_neg, zpow_natCast, ← div_eq_mul_inv,
      one_lt_div (by positivity)] at hgt
    exact_mod_cast hgt
  have hcount' : (2 : ℚ) ^ n + 1 ≤ m * k := by exact_mod_cast hcount
  calc (1 : ℚ) + 2 ^ (-38 : ℤ) ≤ 1 + 2 ^ (-n : ℤ) := by
        gcongr
        · exact one_le_two
        · omega
    _ = (2 ^ n + 1) * 2 ^ (-n : ℤ) := by
        rw [add_mul, zpow_neg, zpow_natCast, mul_inv_cancel₀ (by positivity), one_mul]
    _ ≤ m * k * 2 ^ (-n : ℤ) := by gcongr
    _ = m * 2 ^ (-n : ℤ) * k := mul_right_comm ..

/-- In single precision the scalar is the integer exactly if the multiplier is not above the
reciprocal. -/
theorem single_le_iff (ht : t = .float32) :
    v ≤ 1 / k ↔ (k : ℚ) - 2 ^ ((k.log2 : ℤ) - 53) ≤ 1 / v := by
  obtain ⟨hpos, hlt, -⟩ := reciprocal_bounds hlow hhigh h
  have hk : (0 : ℚ) < k := by exact_mod_cast Nat.lt_of_lt_of_le Nat.two_pos hlow
  constructor
  · intro hle
    have hpower := two_zpow_pos ((k.log2 : ℤ) - 53)
    have hinverse : (k : ℚ) ≤ 1 / v := (le_one_div hk hpos).mpr hle
    linarith
  · contrapose!
    intro hgt
    have hfar := one_add_le_mul_of_single hlow hhigh h ht hgt
    have hnear := (abs_le.mp (abs_mul_sub_one_le hlow hhigh h)).2
    have hhalf : (2 : ℚ) ^ ((k.log2 : ℤ) - 53) * v ≤ 2 ^ (-53 : ℤ) * (v * k) := by
      have hpower : (2 : ℚ) ^ (k.log2 : ℤ) ≤ k := by
        exact_mod_cast Nat.log2_self_le (by omega : k ≠ 0)
      calc (2 : ℚ) ^ ((k.log2 : ℤ) - 53) * v = 2 ^ (-53 : ℤ) * (v * 2 ^ (k.log2 : ℤ)) := by
            rw [sub_eq_add_neg, zpow_add₀ two_ne_zero]
            ring
        _ ≤ 2 ^ (-53 : ℤ) * (v * k) := by gcongr
    rw [div_lt_iff₀ hpos, sub_mul]
    norm_num at hfar hnear hhalf ⊢
    linarith

end Reciprocal

/-- The divisor that a header puts back is an integer exactly if it is what the scalar negates. -/
theorem restored_eq_div_iff {scalar : Int16} (hneg : scalar.toInt < 0) (k : ℕ) :
    (∀ n : Int32, restored scalar n = n.toInt / (k : ℚ)) ↔ scalar.toInt = -k := by
  have hdivides (n : Int32) : restored scalar n = n.toInt / (-scalar.toInt : ℤ) := by
    rw [restored, if_neg hneg.ne, if_neg (not_lt.mpr hneg.le), Int.cast_neg]
  simp only [hdivides]
  constructor
  · intro hall
    have hone := hall 1
    rw [Int32.toInt_one, Int.cast_one, one_div, one_div, inv_inj] at hone
    have hone' : -scalar.toInt = k := by exact_mod_cast hone
    omega
  · intro hscalar n
    rw [hscalar, neg_neg, Int.cast_natCast]

/-- A multiplier is not above a float that is above the reciprocal, so if even the reciprocal of
that float is rounded to the integer, then that of the multiplier is, too. -/
theorem le_one_div_of_float {k m n : ℕ} {u : t.Word} (h : t.IsNearest (1 / k) w v) (hpos : 0 < v)
    (hk : 0 < k) (hlog : k.log2 ≤ 53) (hu : t.meaning u = .finite false m (-n))
    (habove : 2 ^ n ≤ m * k)
    (hclose : (k * 2 ^ (53 - k.log2) - 1) * m ≤ 2 ^ n * 2 ^ (53 - k.log2)) :
    (k : ℚ) - 2 ^ ((k.log2 : ℤ) - 53) ≤ 1 / v := by
  have hk' : (0 : ℚ) < k := by exact_mod_cast hk
  have hvalue : t.value? u = some ((m : ℚ) * 2 ^ (-n : ℤ)) := by
    rw [FloatType.value?, hu]
    rfl
  have hpower : (m : ℚ) * 2 ^ (-n : ℤ) = m / 2 ^ n := by
    rw [zpow_neg, zpow_natCast, div_eq_mul_inv]
  have hreciprocal : (1 / k : ℚ) ≤ m / 2 ^ n := by
    rw [div_le_div_iff₀ hk' (by positivity), one_mul]
    exact_mod_cast habove
  have hle : v ≤ m / 2 ^ n := by
    have hnear := h.nearest _ _ hvalue
    rw [hpower, abs_of_nonneg (sub_nonneg.mpr hreciprocal)] at hnear
    linarith [le_abs_self (v - 1 / k)]
  have hhalf : (2 : ℚ) ^ ((k.log2 : ℤ) - 53) = 1 / (2 ^ (53 - k.log2) : ℕ) := by
    have hexponent : (k.log2 : ℤ) - 53 = -((53 - k.log2 : ℕ) : ℤ) := by omega
    rw [hexponent, zpow_neg, zpow_natCast, one_div, Nat.cast_pow, Nat.cast_ofNat]
  have hp : 0 < 2 ^ (53 - k.log2) := Nat.two_pow_pos _
  generalize 2 ^ (53 - k.log2) = p at *
  have hp' : (0 : ℚ) < p := by exact_mod_cast hp
  have hcount : 1 ≤ k * p := Nat.mul_pos hk hp
  have hclose' : ((k : ℚ) * p - 1) * m ≤ 2 ^ n * p := by exact_mod_cast hclose
  rw [hhalf, le_div_iff₀ hpos]
  calc ((k : ℚ) - 1 / p) * v = (k * p - 1) / p * v := by
        rw [sub_div, mul_div_cancel_right₀ _ hp'.ne']
    _ ≤ (k * p - 1) / p * (m / 2 ^ n) := by
        have hnonneg : (0 : ℚ) ≤ k * p - 1 := sub_nonneg.mpr (by exact_mod_cast hcount)
        gcongr
    _ = (k * p - 1) * m / (2 ^ n * p) := by rw [div_mul_div_comm, mul_comm (p : ℚ)]
    _ ≤ 1 := (div_le_one (by positivity)).mpr hclose'

/-- As doubles, the negative powers of ten down to 0.0001 are hardly above the reciprocals. -/
theorem le_one_div_of_power_of_ten {k : ℕ} {w : FloatType.float64.Word} {v : ℚ}
    (h : FloatType.float64.IsNearest (1 / k) w v) (hpos : 0 < v)
    (hk : k ∈ [10, 100, 1000, 10000]) : (k : ℚ) - 2 ^ ((k.log2 : ℤ) - 53) ≤ 1 / v := by
  simp only [List.mem_cons, List.not_mem_nil, or_false] at hk
  rcases hk with rfl | rfl | rfl | rfl
  · exact le_one_div_of_float (u := 0x3FB999999999999A) (m := 0x1999999999999A) (n := 56) h hpos
      (by decide) (by decide) (by decide) (by decide) (by decide)
  · exact le_one_div_of_float (u := 0x3F847AE147AE147B) (m := 0x147AE147AE147B) (n := 59) h hpos
      (by decide) (by decide) (by decide) (by decide) (by decide)
  · exact le_one_div_of_float (u := 0x3F50624DD2F1A9FC) (m := 0x10624DD2F1A9FC) (n := 62) h hpos
      (by decide) (by decide) (by decide) (by decide) (by decide)
  · exact le_one_div_of_float (u := 0x3F1A36E2EB1C432D) (m := 0x1A36E2EB1C432D) (n := 66) h hpos
      (by decide) (by decide) (by decide) (by decide) (by decide)

/-- **A reciprocal multiplier writes the integer part of its own reciprocal.**  For both float
types, every integer from 2 to 32767 and the float that is nearest to its reciprocal: the multiplier
is accepted, and the scalar is the negated integer part of the double that is nearest to the
reciprocal of the multiplier.  That integer part is the integer or one less.

It is the integer, so that a header divides by what the multiplier stands for, exactly if the
reciprocal of the multiplier is at most half the distance to the next lower double below the
integer.  In single precision that is so exactly if the multiplier is not above the reciprocal, and
as doubles it is so of 0.1, 0.01, 0.001 and 0.0001. -/
theorem reciprocal_scalar (t : FloatType) {k : ℕ} (hlow : 2 ≤ k) (hhigh : k ≤ 32767) :
    (∃ w v, t.IsNearest (1 / k) w v) ∧
    ∀ w v, t.IsNearest (1 / k) w v → ∃ c, ofMultiplier (.floating t) w = .ok c ∧
      c.multiplier = w ∧
      (∃ w' d, FloatType.float64.IsNearest (1 / v) w' d ∧
        c.scalar.toInt = -Number.towardZero d) ∧
      (c.scalar.toInt = -k ∨ c.scalar.toInt = -(k - 1)) ∧
      (c.scalar.toInt = -k ↔ ∀ n, restored c.scalar n = n.toInt / (k : ℚ)) ∧
      (c.scalar.toInt = -k ↔ (k : ℚ) - 2 ^ ((k.log2 : ℤ) - 53) ≤ 1 / v) ∧
      (t = .float32 → (c.scalar.toInt = -k ↔ v ≤ 1 / k)) ∧
      (t = .float64 → k ∈ [10, 100, 1000, 10000] → c.scalar.toInt = -k) := by
  refine ⟨⟨_, exists_isNearest_reciprocal t (by omega)⟩, fun w v h => ?_⟩
  obtain ⟨c, hc, hmultiplier, w', d, hd, hscalar, hpart⟩ :=
    exists_scalar_of_reciprocal hlow hhigh h
  have hwhole : c.scalar.toInt = -k ↔ (k : ℚ) - 2 ^ ((k.log2 : ℤ) - 53) ≤ 1 / v := by
    rw [hscalar, hpart]
    split
    · next hle => exact ⟨fun _ => hle, fun _ => rfl⟩
    · next hle => exact ⟨fun heq => absurd heq (by omega), fun hle' => absurd hle' hle⟩
  have hcases : c.scalar.toInt = -k ∨ c.scalar.toInt = -(k - 1) := by
    rw [hscalar, hpart]
    split <;> simp
  refine ⟨c, hc, hmultiplier, ⟨w', d, hd, hscalar⟩, hcases, ?_, hwhole, fun ht => ?_, ?_⟩
  · exact (restored_eq_div_iff (by omega) k).symm
  · rw [hwhole, single_le_iff hlow hhigh h ht]
  · rintro rfl hk
    exact hwhole.mpr (le_one_div_of_power_of_ten h (reciprocal_bounds hlow hhigh h).1 hk)

/-- The double of a tenth is slightly above it, and has the scalar -10. -/
theorem reciprocal_scalar_tenth : ∃ w v c, FloatType.float64.IsNearest (1 / (10 : ℕ)) w v ∧
    ofMultiplier .float64 w = .ok c ∧ c.scalar.toInt = -10 := by
  obtain ⟨⟨w, v, hw⟩, hscalar⟩ := reciprocal_scalar .float64 (k := 10) (by decide) (by decide)
  obtain ⟨c, hc, -, -, -, -, -, -, hten⟩ := hscalar w v hw
  exact ⟨w, v, c, hw, hc, hten rfl (by decide)⟩

/-- Not every reciprocal is written exactly: the single of a tenth is above it, and has the scalar
-9. -/
theorem single_tenth_writes_nine :
    (∃ v, FloatType.float32.IsNearest (1 / (10 : ℕ)) 0x3DCCCCCD v) ∧
    ofMultiplier .float32 0x3DCCCCCD = .ok ⟨0x3DCCCCCD, -9⟩ ∧
    ¬ ∀ (t : FloatType) (k : ℕ), 2 ≤ k → k ≤ 32767 → ∀ w v, t.IsNearest (1 / k) w v →
      ∃ c, ofMultiplier (.floating t) w = .ok c ∧ c.scalar.toInt = -k := by
  have hnearest : ∃ v, FloatType.float32.IsNearest (1 / (10 : ℕ)) 0x3DCCCCCD v :=
    exists_isNearest_reciprocal .float32 (by decide : 0 < 10)
  have hnine : ofMultiplier .float32 0x3DCCCCCD = .ok ⟨0x3DCCCCCD, -9⟩ := rfl
  refine ⟨hnearest, hnine, fun hall => ?_⟩
  obtain ⟨v, hv⟩ := hnearest
  obtain ⟨c, hc, hscalar⟩ := hall .float32 10 (by decide) (by decide) 0x3DCCCCCD v hv
  cases hc.symm.trans hnine
  exact absurd hscalar (by decide)

/-- Some doubles are too far above a reciprocal, too. -/
example : (ofMultiplier .float64 (FloatType.float64.round false 1 93)).map (·.scalar) = .ok (-92) :=
  rfl

end CoordinateScalar

end SegY
