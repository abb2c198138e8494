import SegY.Proofs.Conversion

/-!
# Conversion to integers — exact or refused

A value becomes an integer by losing its fraction, and is refused if the type does not have what is
left.  Which values are refused is said here in three ways that agree.

* By integer parts: the one of the value is between the lowest and the highest integer of the type
  (`IntegerType.HasPart`).
* By values: there is room for a fraction beyond the highest integer, and also below the lowest one,
  so that everything above minus one is a zero of an unsigned type (`IntegerType.hasPart_iff`).
* By what a machine compares: integers as words of 64 bits, signed ones below zero and unsigned ones
  otherwise (`IntegerType.admitsWord`), and floats as doubles without their fractions
  (`IntegerType.AdmitsDouble`).  No bound is rounded or wraps, since the double above the highest
  integer is a power of two, and no fraction is lost twice (`FloatType.Fits.towardZero`).

`SampleType.convert_exact_or_refused` puts them together.
-/

namespace SegY

namespace IntegerType

/-! ### The range of a type -/

/-- The bits of a type without the one of the sign. -/
def digits (t : IntegerType) : ℕ := if t.signed then t.bits - 1 else t.bits

theorem highest_eq (t : IntegerType) : t.highest = 2 ^ t.digits - 1 := by
  cases t <;> rfl

theorem lowest_eq (t : IntegerType) : t.lowest = if t.signed then -2 ^ t.digits else 0 := by
  cases t <;> rfl

theorem lowest_nonpos (t : IntegerType) : t.lowest ≤ 0 := by
  cases t <;> decide

theorem highest_nonneg (t : IntegerType) : 0 ≤ t.highest := by
  cases t <;> decide

/-- The integers of every type are signed or unsigned words of 64 bits. -/
theorem range_le_word (t : IntegerType) : -2 ^ 63 ≤ t.lowest ∧ t.highest < 2 ^ 64 := by
  cases t <;> decide

theorem toInt_bounds_word (t : IntegerType) (w : t.Word) :
    -2 ^ 63 ≤ t.toInt w ∧ t.toInt w < 2 ^ 64 :=
  ⟨t.range_le_word.1.trans (t.toInt_bounds w).1, (t.toInt_bounds w).2.trans_lt t.range_le_word.2⟩

/-- The values whose integer part a type has are those above one less than the lowest integer, and
below one more than the highest. -/
theorem hasPart_iff {t : IntegerType} {n : Number} :
    t.HasPart n ↔ ∃ x, n.toRat? = some x ∧ (t.lowest : ℚ) - 1 < x ∧ x < t.highest + 1 := by
  simp only [HasPart, Number.le_towardZero_iff t.lowest_nonpos,
    Number.towardZero_le_iff t.highest_nonneg]

/-! ### Words -/

/-- Whether an integer is admitted as a word of 64 bits: below zero it is compared with the lowest
integer as a signed one, and otherwise with the highest as an unsigned one. -/
def admitsWord (t : IntegerType) (n : ℤ) : Bool :=
  if n < 0 then (BitVec.ofInt 64 t.lowest).sle (BitVec.ofInt 64 n)
  else (BitVec.ofInt 64 n).ule (BitVec.ofInt 64 t.highest)

theorem toNat_ofInt_word {n : ℤ} (hnonneg : 0 ≤ n) (hhigh : n < 2 ^ 64) :
    ((BitVec.ofInt 64 n).toNat : ℤ) = n := by
  rw [BitVec.toNat_ofInt]
  omega

/-- The comparisons of words are those of integers. -/
theorem admitsWord_iff (t : IntegerType) {n : ℤ} (hlow : -2 ^ 63 ≤ n) (hhigh : n < 2 ^ 64) :
    t.admitsWord n = true ↔ t.lowest ≤ n ∧ n ≤ t.highest := by
  have hnonpos := t.lowest_nonpos
  have hnonneg := t.highest_nonneg
  rw [admitsWord]
  split
  · next hn =>
    rw [BitVec.sle_iff_toInt_le,
      BitVec.toInt_ofInt_eq_self (by decide) t.range_le_word.1 (by omega),
      BitVec.toInt_ofInt_eq_self (by decide) hlow (by omega)]
    omega
  · next hn =>
    rw [BitVec.ule_iff_toNat_le, ← Int.ofNat_le, toNat_ofInt_word (by omega) hhigh,
      toNat_ofInt_word hnonneg t.range_le_word.2]
    omega

end IntegerType

/-! ### Floats without their fractions -/

namespace FloatType

variable {t : FloatType} {w : t.Word}

/-- The integer part of a number of a format is one, too. -/
theorem Fits.towardZero {x : ℚ} (h : t.Fits x) : t.Fits (Number.towardZero x) := by
  rcases h.eq_int_or_lt with ⟨k, rfl⟩ | hsmall
  · rwa [Number.towardZero_intCast]
  · have hpart : |(Number.towardZero x : ℚ)| < 2 ^ t.fractionBits :=
      (Number.abs_towardZero_le x).trans_lt hsmall
    have hpart' : |Number.towardZero x| < 2 ^ t.fractionBits := by exact_mod_cast hpart
    exact fits_of_int (hpart'.trans (pow_lt_pow_right₀ one_lt_two (Nat.lt_succ_self _)))

/-- A float without its fraction; infinities and NaN stay as they are. -/
def trunc (t : FloatType) (w : t.Word) : t.Word :=
  match t.meaning w with
  | .finite negative m e =>
    t.ofNumber (.finite negative (Number.numerator m e / Number.denominator e) 0)
  | .infinite _ | .nan _ _ => w

/-- A float without its fraction is the integer part. -/
theorem value?_trunc {x : ℚ} (h : t.value? w = some x) :
    t.value? (t.trunc w) = some (Number.towardZero x : ℚ) := by
  obtain ⟨negative, m, e, hw, rfl⟩ := value?_eq_some_iff.mp h
  have hpart := Number.truncate?_eq_map (.finite negative m e)
  simp only [Number.truncate?, Number.toRat?, Option.map_some, Option.some.injEq] at hpart
  rw [trunc, hw]
  refine t.value?_ofNumber_of_fits ?_ ?_ (fits_of_value? h).towardZero
  · rw [Number.toRat?, zpow_zero, mul_one, ← Number.cast_signed, hpart]
  · exact (Number.abs_towardZero_le _).trans (abs_le_largest h)

theorem value?_trunc_eq_none (h : t.value? w = none) : t.value? (t.trunc w) = none := by
  rw [trunc]
  split
  · next hw =>
    rw [value?, hw] at h
    cases h
  · exact h
  · exact h

/-- Whether a float is at least a finite one, and below another one.  A NaN is neither, and an
infinity is not both. -/
def IsWithin (t : FloatType) (low high w : t.Word) : Prop :=
  ∃ a b x, t.value? low = some a ∧ t.value? high = some b ∧ t.value? w = some x ∧ a ≤ x ∧ x < b

/-- The powers of two up to that of 64 bits are doubles. -/
theorem value?_powerOfTwo {n : ℕ} (hn : n ≤ 64) (negative : Bool) :
    float64.value? (float64.ofNumber (.finite negative 1 n)) =
      some (Number.withSign negative (2 ^ n)) := by
  have hlargest : (2 : ℕ) ^ 64 ≤ float64.largest := by decide
  have hpow : (2 : ℚ) ^ n ≤ float64.largest :=
    (pow_le_pow_right₀ one_le_two hn).trans (by exact_mod_cast hlargest)
  refine float64.value?_ofNumber_of_fits ?_ ?_ ?_
  · rw [Number.toRat?, Nat.cast_one, one_mul, zpow_natCast]
  · rwa [Number.abs_withSign, abs_of_pos (by positivity)]
  · refine Fits.withSign ⟨1, n, by decide, ?_, by simp⟩ negative
    exact le_trans (by decide : float64.lowestExponent ≤ 0) (Int.natCast_nonneg n)

end FloatType

/-! ### Doubles -/

namespace IntegerType

variable (t : IntegerType)

/-- The double that all integers of the type are below. -/
def upperDouble : FloatType.float64.Word :=
  FloatType.float64.ofNumber (.finite false 1 t.digits)

/-- The lowest integer of the type, as a double. -/
def lowerDouble : FloatType.float64.Word :=
  if t.signed then FloatType.float64.ofNumber (.finite true 1 t.digits)
  else FloatType.float64.ofNumber (.ofInt 0)

theorem digits_le : t.digits ≤ 64 := by
  cases t <;> decide

theorem value?_upperDouble :
    FloatType.float64.value? t.upperDouble = some ((t.highest : ℚ) + 1) := by
  rw [upperDouble, FloatType.value?_powerOfTwo t.digits_le, highest_eq]
  simp [Number.withSign]

theorem value?_lowerDouble : FloatType.float64.value? t.lowerDouble = some (t.lowest : ℚ) := by
  rw [lowerDouble, lowest_eq]
  split
  · rw [FloatType.value?_powerOfTwo t.digits_le]
    simp [Number.withSign]
  · exact FloatType.float64.value?_ofNumber_of_fits (Number.toRat?_ofInt 0)
      (FloatType.abs_le_largest_of_int (by decide)) (FloatType.fits_of_int (by decide))

/-- Whether a double is admitted: it loses its fraction first, and is compared then. -/
def AdmitsDouble (w : FloatType.float64.Word) : Prop :=
  FloatType.float64.IsWithin t.lowerDouble t.upperDouble (FloatType.float64.trunc w)

/-- The comparisons of doubles are those of integer parts. -/
theorem admitsDouble_iff {w : FloatType.float64.Word} :
    t.AdmitsDouble w ↔ t.HasPart (FloatType.float64.meaning w) := by
  have hvalue : (FloatType.float64.meaning w).toRat? = FloatType.float64.value? w := rfl
  simp only [AdmitsDouble, FloatType.IsWithin, value?_lowerDouble, value?_upperDouble,
    Option.some.injEq, exists_and_left, exists_eq_left', HasPart, hvalue]
  cases hw : FloatType.float64.value? w with
  | none => simp [FloatType.value?_trunc_eq_none hw]
  | some x =>
    simp only [FloatType.value?_trunc hw, Option.some.injEq, exists_eq_left']
    constructor
    · rintro ⟨hlow, hhigh⟩
      exact ⟨by exact_mod_cast hlow, Int.lt_add_one_iff.mp (by exact_mod_cast hhigh)⟩
    · rintro ⟨hlow, hhigh⟩
      exact ⟨by exact_mod_cast hlow, by exact_mod_cast Int.lt_add_one_iff.mpr hhigh⟩

end IntegerType

/-! ### Values of all types -/

namespace SampleType

/-- Whether a value is admitted to an integer type, by the comparisons of words if it is an integer,
and by those of doubles if it is a float. -/
def Admitted (target : IntegerType) : (source : SampleType) → source.Word → Prop
  | integer s, w => target.admitsWord (s.toInt w) = true
  | floating s, w => target.AdmitsDouble (FloatType.float64.convert s w)

/-- The values that are admitted are those whose integer part the type has. -/
theorem admitted_iff {target : IntegerType} {source : SampleType} {w : source.Word} :
    Admitted target source w ↔ target.HasPart (source.number w) := by
  cases source with
  | integer s =>
    obtain ⟨hlow, hhigh⟩ := s.toInt_bounds_word w
    have hvalue : ((integer s).number w).toRat? = some (s.toInt w : ℚ) :=
      toRat?_number_integer s w
    rw [Admitted, target.admitsWord_iff hlow hhigh]
    simp only [IntegerType.HasPart, hvalue, Option.some.injEq, exists_eq_left',
      Number.towardZero_intCast]
  | floating s =>
    have hsame : (FloatType.float64.meaning (FloatType.float64.convert s w)).Same (s.meaning w) :=
      FloatType.same_convert (by cases s <;> decide) w
    rw [Admitted, IntegerType.admitsDouble_iff, IntegerType.HasPart, hsame.toRat?_eq]
    rfl

/-- **Conversion to integers is exact or refused.**  For every value of every type and every integer
type: what a value becomes is its integer part, and an integral value is kept; it becomes something
exactly if it is no NaN and no infinity and the type has its integer part, that is, if it is above
one less than the lowest integer and below the power of two of the type, and that is what the
comparisons of words and of doubles say.  Everything between minus one and one becomes zero.
Otherwise the value is refused, and named together with both types. -/
theorem convert_exact_or_refused (target : IntegerType) (source : SampleType) (w : source.Word) :
    let converted := convert (integer target) source w
    (∀ v, converted = .ok v ↔
      ∃ x, (source.number w).toRat? = some x ∧ target.toInt v = Number.towardZero x) ∧
    (∀ k : ℤ, (source.number w).toRat? = some (k : ℚ) → ∀ v, converted = .ok v →
      target.toInt v = k) ∧
    ((∃ v, converted = .ok v) ↔ ∃ x, (source.number w).toRat? = some x ∧
      target.lowest ≤ Number.towardZero x ∧ Number.towardZero x ≤ target.highest) ∧
    ((∃ v, converted = .ok v) ↔ ∃ x, (source.number w).toRat? = some x ∧
      (if target.signed then -2 ^ target.digits else 0) - 1 < x ∧ x < 2 ^ target.digits) ∧
    ((∃ v, converted = .ok v) ↔ Admitted target source w) ∧
    (∀ x, (source.number w).toRat? = some x → -1 < x → x < 1 →
      ∃ v, converted = .ok v ∧ target.toInt v = 0) ∧
    ∀ e, converted = .error e → e = .unrepresentable source (source.number w) (integer target) := by
  intro converted
  refine ⟨fun v => convert_integer_eq_ok_iff_towardZero,
    fun k hk v hv => (convert_integer_eq_ok_iff hk).mp hv, exists_convert_integer_iff, ?_,
    exists_convert_integer_iff.trans admitted_iff.symm, fun x hx hlow hhigh => ?_,
    fun e he => error_of_convert he⟩
  · refine exists_convert_integer_iff.trans (IntegerType.hasPart_iff.trans ?_)
    have hlowest : (target.lowest : ℚ) = if target.signed then -2 ^ target.digits else 0 := by
      rw [target.lowest_eq]
      split <;> simp
    have hhighest : (target.highest : ℚ) + 1 = 2 ^ target.digits := by
      rw [target.highest_eq]
      simp
    rw [hlowest, hhighest]
  · have hzero : Number.towardZero x = 0 := Number.towardZero_eq_zero (abs_lt.mpr ⟨hlow, hhigh⟩)
    have hpart : target.HasPart (source.number w) :=
      ⟨x, hx, hzero ▸ target.lowest_nonpos, hzero ▸ target.highest_nonneg⟩
    obtain ⟨v, hv⟩ := exists_convert_integer_iff.mpr hpart
    obtain ⟨x', hx', hv'⟩ := convert_integer_eq_ok_iff_towardZero.mp hv
    cases hx.symm.trans hx'
    exact ⟨v, hv, hv'.trans hzero⟩

/-- Minus three quarters is a zero of an unsigned type. -/
example : convert .uint8 .float64 0xBFE8000000000000 = .ok 0 := by
  decide

/-- Two to the 63 is no signed integer of 64 bits. -/
example : convert .int64 .float64 0x43E0000000000000 =
    .error (.unrepresentable .float64 (.finite false 4503599627370496 11) .int64) := by
  decide

end SampleType

end SegY
