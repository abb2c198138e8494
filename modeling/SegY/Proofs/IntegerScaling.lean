import SegY.Scaling
import SegY.Proofs.IntegerConversion
import SegY.Proofs.Results

/-!
# Coordinate scaling in integers

A coordinate of an integer type is divided by an integer multiplier, in the arithmetic of the type,
and stored as the quotient without its fraction.  The scalar of the header says how to put it back.

* `CoordinateScalar.ofMultiplier_integer_eq_ok_iff`: which multipliers are accepted, and what scalar
  they have.
* `CoordinateScalar.scaleToInt32_integer_eq_ok_iff`: what is stored of a coordinate.
* `CoordinateScalar.integer_scaling`: what is put back is less than one multiplier from the
  coordinate, on the side of zero.
-/

namespace SegY

/-! ### Quotients toward zero -/

/-- What a quotient gives back on the side of zero, for a dividend that is not below it. -/
theorem tdiv_mul_bounds_of_nonneg {x m : ℤ} (hx : 0 ≤ x) (hm : 0 < m) :
    0 ≤ x.tdiv m * m ∧ x.tdiv m * m ≤ x ∧ x < x.tdiv m * m + m := by
  have hsum := Int.mul_tdiv_add_tmod x m
  have hlow := Int.tmod_nonneg m hx
  have hhigh := Int.tmod_lt_of_pos x hm
  have hquotient : 0 ≤ x.tdiv m * m := Int.mul_nonneg (Int.tdiv_nonneg hx hm.le) hm.le
  rw [mul_comm] at hsum
  omega

/-- A quotient takes a dividend back toward zero, by less than a divisor. -/
theorem tdiv_mul_between {x m : ℤ} (hm : 0 < m) :
    |x.tdiv m * m| ≤ |x| ∧ |x - x.tdiv m * m| < m ∧ 0 ≤ x * (x.tdiv m * m) := by
  rcases le_total 0 x with hx | hx
  · obtain ⟨hnonneg, hle, hlt⟩ := tdiv_mul_bounds_of_nonneg hx hm
    rw [abs_of_nonneg hnonneg, abs_of_nonneg hx, abs_of_nonneg (by omega)]
    exact ⟨hle, by omega, Int.mul_nonneg hx hnonneg⟩
  · -- below zero the quotient is the negated one of the dividend without its sign
    obtain ⟨hnonneg, hle, hlt⟩ := tdiv_mul_bounds_of_nonneg (neg_nonneg.mpr hx) hm
    rw [Int.neg_tdiv, Int.neg_mul] at hnonneg hle hlt
    rw [abs_of_nonpos (by omega), abs_of_nonpos hx, abs_of_nonpos (by omega)]
    exact ⟨hle, by omega, Int.mul_nonneg_of_nonpos_of_nonpos hx (by omega)⟩

/-- Division of integers is that of rationals without the fraction. -/
theorem Number.towardZero_div {x m : ℤ} (hm : 0 < m) :
    Number.towardZero ((x : ℚ) / m) = x.tdiv m := by
  have hm' : (0 : ℚ) < m := by exact_mod_cast hm
  have hnonneg {x : ℤ} (hx : 0 ≤ x) : Number.towardZero ((x : ℚ) / m) = x.tdiv m := by
    obtain ⟨-, hle, hlt⟩ := tdiv_mul_bounds_of_nonneg hx hm
    have hx' : (0 : ℚ) ≤ x := by exact_mod_cast hx
    rw [Number.towardZero, if_pos (div_nonneg hx' hm'.le), Int.floor_eq_iff, le_div_iff₀ hm',
      div_lt_iff₀ hm', add_mul, one_mul]
    exact ⟨by exact_mod_cast hle, by exact_mod_cast hlt⟩
  rcases le_total 0 x with hx | hx
  · exact hnonneg hx
  · have h := hnonneg (neg_nonneg.mpr hx)
    rw [Int.cast_neg, neg_div, Number.towardZero_neg, Int.neg_tdiv] at h
    exact neg_inj.mp h

namespace IntegerType

/-- The quotient by a positive integer of a type is one of the type. -/
theorem tdiv_bounds (t : IntegerType) {x m : ℤ} (hm : 0 < m) (hlow : t.lowest ≤ x)
    (hhigh : x ≤ t.highest) : t.lowest ≤ x.tdiv m ∧ x.tdiv m ≤ t.highest := by
  have hlowest := t.lowest_nonpos
  have hhighest := t.highest_nonneg
  have hsmall := Int.natAbs_tdiv_le_natAbs x m
  rcases le_total 0 x with hx | hx
  · have := Int.tdiv_nonneg hx hm.le
    omega
  · have := Int.tdiv_nonneg (neg_nonneg.mpr hx) hm.le
    rw [Int.neg_tdiv] at this
    omega

end IntegerType

namespace CoordinateScalar

/-- The coordinate that a header means by a stored one: a positive scalar multiplies it, a negative
one divides it, and zero keeps it. -/
def restored (scalar : Int16) (n : Int32) : ℚ :=
  if scalar.toInt = 0 then n.toInt
  else if 0 < scalar.toInt then n.toInt * scalar.toInt
  else n.toInt / -scalar.toInt

/-- A value has the 16-bit integer that is its integer part. -/
theorem toInt16_eq_ok_iff {t : SampleType} {w : t.Word} {n : Int16} : toInt16 t w = .ok n ↔
    ∃ x, (t.number w).toRat? = some x ∧ n.toInt = Number.towardZero x :=
  SampleType.map_convert_integer_eq_ok_iff (t := .int16) (g := Int16.toBitVec) (fun _ => rfl)
    (fun _ => rfl)

/-- What is stored of a coordinate is the integer part of its scaled value. -/
theorem scaleToInt32_eq_ok_iff {t : SampleType} {c : CoordinateScalar t} {x : t.Word} {r : Int32} :
    c.scaleToInt32 x = .ok r ↔
      ∃ q, (t.number (c.scale x)).toRat? = some q ∧ r.toInt = Number.towardZero q :=
  SampleType.map_convert_integer_eq_ok_iff (t := .int32) (g := Int32.toBitVec) (fun _ => rfl)
    (fun _ => rfl)

theorem isPositive_ofInt {n : ℤ} : (Number.ofInt n).isPositive = true ↔ 0 < n := by
  simp only [Number.ofInt, Number.isPositive, Bool.and_eq_true, Bool.not_eq_true',
    decide_eq_false_iff_not, bne_iff_ne, ne_eq, Int.natAbs_eq_zero]
  omega

theorem compareOne_ofInt (n : ℤ) : (Number.ofInt n).compareOne = compare n.natAbs 1 :=
  rfl

variable {t : IntegerType} {m x : (SampleType.integer t).Word}

/-- An integer is its own integer part. -/
theorem exists_toRat?_integer_iff {w : t.Word} {n : ℤ} :
    (∃ q, ((SampleType.integer t).number w).toRat? = some q ∧ n = Number.towardZero q) ↔
      n = t.toInt w := by
  simp only [SampleType.toRat?_number_integer, Option.some.injEq, exists_eq_left',
    Number.towardZero_intCast]

theorem ofMultiplier_of_nonpos (h : t.toInt m ≤ 0) :
    ofMultiplier (.integer t) m = .error (.multiplier (.integer t) (.ofInt (t.toInt m))) :=
  if_neg (mt isPositive_ofInt.mp h.not_gt)

theorem ofMultiplier_of_eq_one (h : t.toInt m = 1) : ofMultiplier (.integer t) m = .ok ⟨m, 0⟩ := by
  have hpos : ((SampleType.integer t).number m).isPositive = true :=
    isPositive_ofInt.mpr (by omega)
  have hone : ((SampleType.integer t).number m).compareOne = .eq :=
    (compareOne_ofInt _).trans (Nat.compare_eq_eq.mpr (by omega))
  rw [ofMultiplier, if_pos hpos, hone]

theorem ofMultiplier_of_one_lt (h : 1 < t.toInt m) :
    ofMultiplier (.integer t) m = (toInt16 (.integer t) m).map fun s => ⟨m, s⟩ := by
  have hpos : ((SampleType.integer t).number m).isPositive = true :=
    isPositive_ofInt.mpr (by omega)
  have hone : ((SampleType.integer t).number m).compareOne = .gt :=
    (compareOne_ofInt _).trans (Nat.compare_eq_gt.mpr (by omega))
  rw [ofMultiplier, if_pos hpos, hone]

/-- The multipliers that are accepted, and their scalars. -/
theorem ofMultiplier_integer_eq_ok_iff {c : CoordinateScalar (.integer t)} :
    ofMultiplier (.integer t) m = .ok c ↔ 0 < t.toInt m ∧ t.toInt m ≤ 32767 ∧
      c.multiplier = m ∧ c.scalar.toInt = if t.toInt m = 1 then 0 else t.toInt m := by
  rcases Int.lt_trichotomy (t.toInt m) 1 with h | h | h
  · rw [ofMultiplier_of_nonpos (by omega)]
    constructor
    · intro hc
      cases hc
    · rintro ⟨hpos, -⟩
      omega
  · rw [ofMultiplier_of_eq_one h, if_pos h]
    constructor
    · intro hc
      cases hc
      exact ⟨by omega, by omega, rfl, rfl⟩
    · obtain ⟨multiplier, scalar⟩ := c
      rintro ⟨-, -, rfl, hscalar⟩
      have hzero : scalar = 0 := Int16.toInt_inj.mp (hscalar.trans Int16.toInt_zero.symm)
      rw [hzero]
  · have hstored {s : Int16} : toInt16 (.integer t) m = .ok s ↔ s.toInt = t.toInt m :=
      toInt16_eq_ok_iff.trans exists_toRat?_integer_iff
    rw [ofMultiplier_of_one_lt h, if_neg (by omega), Except.map_eq_ok_iff]
    constructor
    · rintro ⟨s, hs, rfl⟩
      have hs' := hstored.mp hs
      have hlt := s.toInt_lt
      exact ⟨by omega, by omega, rfl, hs'⟩
    · rintro ⟨-, -, rfl, hs⟩
      exact ⟨c.scalar, hstored.mpr hs, rfl⟩

/-- A coordinate is scaled in its own type, whose integers hold every quotient. -/
theorem toInt_scale {c : CoordinateScalar (.integer t)} (hm : 0 < t.toInt c.multiplier) :
    t.toInt (c.scale x) = (t.toInt x).tdiv (t.toInt c.multiplier) := by
  obtain ⟨hlow, hhigh⟩ := t.tdiv_bounds hm (t.toInt_bounds x).1 (t.toInt_bounds x).2
  exact t.toInt_ofInt hlow hhigh

theorem scaleToInt32_integer_eq_ok_iff {c : CoordinateScalar (.integer t)}
    (hm : 0 < t.toInt c.multiplier) {r : Int32} :
    c.scaleToInt32 x = .ok r ↔ r.toInt = (t.toInt x).tdiv (t.toInt c.multiplier) := by
  rw [← toInt_scale hm]
  exact scaleToInt32_eq_ok_iff.trans exists_toRat?_integer_iff

theorem exists_ofMultiplier_integer_iff : (∃ c, ofMultiplier (.integer t) m = .ok c) ↔
    0 < t.toInt m ∧ t.toInt m ≤ 32767 := by
  simp only [ofMultiplier_integer_eq_ok_iff]
  constructor
  · rintro ⟨c, hpos, hle, -⟩
    exact ⟨hpos, hle⟩
  · rintro ⟨hpos, hle⟩
    refine ⟨⟨m, Int16.ofInt (if t.toInt m = 1 then 0 else t.toInt m)⟩, hpos, hle, rfl, ?_⟩
    exact Int16.toInt_ofInt_of_le (by split <;> omega) (by split <;> omega)

theorem exists_scaleToInt32_integer_iff {c : CoordinateScalar (.integer t)}
    (hm : 0 < t.toInt c.multiplier) : (∃ r, c.scaleToInt32 x = .ok r) ↔
      -2147483648 ≤ (t.toInt x).tdiv (t.toInt c.multiplier) ∧
        (t.toInt x).tdiv (t.toInt c.multiplier) ≤ 2147483647 := by
  simp only [scaleToInt32_integer_eq_ok_iff hm]
  constructor
  · rintro ⟨r, hr⟩
    have hlow := r.le_toInt
    have hhigh := r.toInt_lt
    omega
  · rintro ⟨hlow, hhigh⟩
    exact ⟨Int32.ofInt _, Int32.toInt_ofInt_of_le hlow (by omega)⟩

/-- A scalar that comes from an integer multiplier multiplies with it. -/
theorem restored_of_multiplier {scalar : Int16} {k : ℤ} (hk : 0 < k)
    (hscalar : scalar.toInt = if k = 1 then 0 else k) (n : Int32) :
    restored scalar n = (n.toInt * k : ℤ) := by
  by_cases hone : k = 1
  · rw [if_pos hone] at hscalar
    rw [restored, if_pos hscalar, hone, mul_one]
  · rw [if_neg hone] at hscalar
    rw [restored, hscalar, if_neg hk.ne', if_pos hk, Int.cast_mul]

/-- **Integer scaling is undone up to one multiplier.**  For every integer type and every multiplier
of it: a multiplier is refused exactly if it is not above zero or above 32767, and the scalar is the
multiplier, or zero if that is one.

A coordinate is refused exactly if its quotient without the fraction does not have 32 bits.
Otherwise the quotient is stored, and what the header puts back is a multiple of the multiplier,
less than one multiplier from the coordinate, not farther from zero than the coordinate, and not on
the other side of zero.  Coordinates in order are stored in order. -/
theorem integer_scaling (t : IntegerType) (m : (SampleType.integer t).Word) :
    ((∃ e, ofMultiplier (.integer t) m = .error e) ↔ t.toInt m ≤ 0 ∨ 32767 < t.toInt m) ∧
    ∀ c, ofMultiplier (.integer t) m = .ok c →
      c.multiplier = m ∧ c.scalar.toInt = (if t.toInt m = 1 then 0 else t.toInt m) ∧
      (∀ x, (∃ e, c.scaleToInt32 x = .error e) ↔
        ¬ (-2147483648 ≤ Number.towardZero ((t.toInt x : ℚ) / t.toInt m) ∧
          Number.towardZero ((t.toInt x : ℚ) / t.toInt m) ≤ 2147483647)) ∧
      (∀ x r, c.scaleToInt32 x = .ok r →
        r.toInt = Number.towardZero ((t.toInt x : ℚ) / t.toInt m) ∧
        restored c.scalar r = r.toInt * t.toInt m ∧
        |restored c.scalar r| ≤ |(t.toInt x : ℚ)| ∧
        |t.toInt x - restored c.scalar r| < t.toInt m ∧
        0 ≤ t.toInt x * restored c.scalar r) ∧
      ∀ x y r s, t.toInt x ≤ t.toInt y → c.scaleToInt32 x = .ok r → c.scaleToInt32 y = .ok s →
        r ≤ s := by
  refine ⟨?_, fun c hc => ?_⟩
  · rw [Except.exists_error_iff, exists_ofMultiplier_integer_iff]
    omega
  obtain ⟨hpos, -, hmultiplier, hscalar⟩ := ofMultiplier_integer_eq_ok_iff.mp hc
  subst hmultiplier
  refine ⟨rfl, hscalar, fun x => ?_, fun x r hr => ?_, fun x y r s hle hr hs => ?_⟩
  · rw [Except.exists_error_iff, exists_scaleToInt32_integer_iff hpos,
      Number.towardZero_div hpos]
  · have hquotient := (scaleToInt32_integer_eq_ok_iff hpos).mp hr
    obtain ⟨habs, hunit, hsign⟩ := tdiv_mul_between (x := t.toInt x) hpos
    rw [← hquotient] at habs hunit hsign
    rw [restored_of_multiplier hpos hscalar]
    refine ⟨?_, Int.cast_mul _ _, ?_, ?_, ?_⟩
    · rw [Number.towardZero_div hpos, hquotient]
    · exact_mod_cast habs
    · exact_mod_cast hunit
    · exact_mod_cast hsign
  · rw [Int32.le_iff_toInt_le, (scaleToInt32_integer_eq_ok_iff hpos).mp hr,
      (scaleToInt32_integer_eq_ok_iff hpos).mp hs]
    exact Int.tdiv_le_tdiv hpos hle

/-- The lowest 8-bit integer by three: 42 threes are 126, on the side of zero. -/
theorem integer_scaling_lowest :
    ∃ c r, ofMultiplier .int8 3 = .ok c ∧ c.scaleToInt32 0x80 = .ok r ∧ c.scalar.toInt = 3 ∧
      restored c.scalar r = -126 ∧ |IntegerType.int8.toInt 0x80 - restored c.scalar r| < 3 := by
  obtain ⟨-, hscaling⟩ := integer_scaling .int8 3
  obtain ⟨-, hscalar, -, hrestored, -⟩ := hscaling ⟨3, 3⟩ rfl
  obtain ⟨-, hmultiple, -, hunit, -⟩ := hrestored 0x80 (-42) rfl
  have hthree : IntegerType.int8.toInt (3 : (SampleType.integer .int8).Word) = 3 := by decide
  have hstored : (-42 : Int32).toInt = -42 := by decide
  rw [hthree] at hmultiple hunit
  refine ⟨⟨3, 3⟩, -42, rfl, rfl, hscalar, ?_, by exact_mod_cast hunit⟩
  rw [hmultiple, hstored]
  norm_num

end CoordinateScalar

end SegY
