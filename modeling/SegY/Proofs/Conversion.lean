import Mathlib.Data.Rat.Floor
import SegY.Conversion
import SegY.Proofs.NearestFloat
import SegY.Proofs.Results

/-!
# Conversion — what is kept

A conversion keeps a number if the target type has it, and otherwise it rounds, saturates or fails.
Which numbers a type has is known from its bounds alone, so whether a type has all numbers of
another one is a comparison of their bounds (`SampleType.Covers`).

* `IntegerType.ofInt?_eq_some_iff`: integers of a type are its patterns, one to one.
* `Number.truncate?_eq_map`: the integer part of a number, as that of a rational.
* `SampleType.convert_integer_eq_ok_iff_towardZero`: a value becomes the integer that is its integer
  part; an integral one becomes that integer (`convert_integer_eq_ok_iff`).
* `SampleType.exists_convert_integer_iff`: a value whose integer part the target type has becomes
  an integer, and no other does.
* `SampleType.convert_of_covers`: a type that has all numbers of another one keeps them.
-/

namespace SegY

/-! ### Integers of a type -/

namespace IntegerType

variable (t : IntegerType)

theorem toInt_bounds (w : t.Word) : t.lowest ≤ t.toInt w ∧ t.toInt w ≤ t.highest := by
  have hlow := w.le_toInt
  have hhigh := w.toInt_lt
  have hnat := w.isLt
  cases t <;>
    simp only [toInt, lowest, highest, signed, bits, width, if_true, Bool.false_eq_true, if_false,
      Nat.one_shiftLeft] at * <;>
    omega

theorem toInt_ofInt {n : ℤ} (hlow : t.lowest ≤ n) (hhigh : n ≤ t.highest) :
    t.toInt (BitVec.ofInt t.bits n) = n := by
  cases t <;>
    simp only [toInt, lowest, highest, signed, bits, width, if_true, Bool.false_eq_true, if_false,
      Nat.one_shiftLeft, BitVec.toInt_ofInt, BitVec.toNat_ofInt, Int.bmod, Nat.reduceMul,
      Nat.reducePow] at * <;>
    omega

theorem ofInt_toInt (w : t.Word) : BitVec.ofInt t.bits (t.toInt w) = w := by
  rw [toInt]
  split
  · exact BitVec.ofInt_toInt
  · rw [BitVec.ofInt_natCast, BitVec.ofNat_toNat, BitVec.setWidth_eq]

/-- The patterns of a type are its integers. -/
theorem ofInt?_eq_some_iff {n : ℤ} {w : t.Word} : t.ofInt? n = some w ↔ t.toInt w = n := by
  rw [ofInt?]
  constructor
  · intro h
    split at h
    · next hrange =>
      cases h
      exact t.toInt_ofInt hrange.1 hrange.2
    · cases h
  · rintro rfl
    rw [if_pos (t.toInt_bounds w), ofInt_toInt]

end IntegerType

/-! ### Equal numbers -/

namespace Number

/-- Whether a number is NaN. -/
def isNan : Number → Bool
  | nan _ _ => true
  | finite _ _ _ | infinite _ => false

/-- Whether two numbers are numerically equal; the sign of a zero does not matter, and a NaN is
equal to nothing. -/
def Equal (a b : Number) : Prop :=
  (∃ negative, a = .infinite negative ∧ b = .infinite negative) ∨
    ∃ x, a.toRat? = some x ∧ b.toRat? = some x

/-- Whether two numbers are numerically equal, or both are NaN. -/
def Same (a b : Number) : Prop := a.Equal b ∨ a.isNan = true ∧ b.isNan = true

theorem same_self (a : Number) : a.Same a := by
  cases a with
  | finite negative m e => exact .inl (.inr ⟨_, rfl, rfl⟩)
  | infinite negative => exact .inl (.inl ⟨negative, rfl, rfl⟩)
  | nan negative payload => exact .inr ⟨rfl, rfl⟩

theorem Same.equal {a b : Number} (h : a.Same b) (hb : b.isNan = false) : a.Equal b := by
  refine h.resolve_right fun hnan => ?_
  rw [hb] at hnan
  cases hnan.2

theorem toRat?_of_isNan {a : Number} (h : a.isNan = true) : a.toRat? = none := by
  cases a with
  | nan => rfl
  | finite | infinite => cases h

/-- Numbers that are the same have the same value, or none. -/
theorem Same.toRat?_eq {a b : Number} (h : a.Same b) : a.toRat? = b.toRat? := by
  rcases h with (⟨negative, rfl, rfl⟩ | ⟨x, ha, hb⟩) | ⟨ha, hb⟩
  · rfl
  · rw [ha, hb]
  · rw [toRat?_of_isNan ha, toRat?_of_isNan hb]

end Number

/-! ### Integral values -/

namespace Number

/-- The integer part of a rational number, toward zero. -/
def towardZero (x : ℚ) : ℤ := if 0 ≤ x then ⌊x⌋ else ⌈x⌉

theorem towardZero_intCast (k : ℤ) : towardZero k = k := by
  rw [towardZero, Int.floor_intCast, Int.ceil_intCast, ite_self]

theorem towardZero_neg (x : ℚ) : towardZero (-x) = -towardZero x := by
  rcases lt_trichotomy x 0 with h | rfl | h
  · rw [towardZero, if_pos (by linarith), towardZero, if_neg (by linarith), Int.floor_neg]
  · simp [towardZero]
  · rw [towardZero, if_neg (by linarith), towardZero, if_pos h.le, Int.ceil_neg]

theorem abs_towardZero_le (x : ℚ) : |(towardZero x : ℚ)| ≤ |x| := by
  rcases le_or_gt 0 x with h | h
  · have hfloor : (0 : ℚ) ≤ ⌊x⌋ := by exact_mod_cast Int.floor_nonneg.mpr h
    rw [towardZero, if_pos h, abs_of_nonneg hfloor, abs_of_nonneg h]
    exact Int.floor_le x
  · have hceil : (⌈x⌉ : ℚ) ≤ 0 := by exact_mod_cast Int.ceil_le.mpr (by exact_mod_cast h.le)
    rw [towardZero, if_neg (not_le.mpr h), abs_of_nonpos hceil, abs_of_neg h]
    exact neg_le_neg (Int.le_ceil x)

/-- Above zero a bound on the integer part leaves room for a fraction. -/
theorem towardZero_le_iff {x : ℚ} {k : ℤ} (hk : 0 ≤ k) : towardZero x ≤ k ↔ x < k + 1 := by
  rw [towardZero]
  split
  · exact Int.floor_le_iff
  · next h =>
    have hx : x < 0 := not_le.mp h
    have hceil : ⌈x⌉ ≤ 0 := Int.ceil_le.mpr (by exact_mod_cast hx.le)
    have hk' : (0 : ℚ) ≤ k := by exact_mod_cast hk
    exact ⟨fun _ => by linarith, fun _ => hceil.trans hk⟩

/-- Below zero a bound on the integer part leaves room for a fraction. -/
theorem le_towardZero_iff {x : ℚ} {k : ℤ} (hk : k ≤ 0) : k ≤ towardZero x ↔ (k : ℚ) - 1 < x := by
  have hneg := towardZero_le_iff (x := -x) (neg_nonneg.mpr hk)
  rw [towardZero_neg, neg_le_neg_iff] at hneg
  rw [hneg]
  push_cast
  constructor <;> intro h <;> linarith

/-- What is between minus one and one has no integer part. -/
theorem towardZero_eq_zero {x : ℚ} (h : |x| < 1) : towardZero x = 0 := by
  obtain ⟨hlow, hhigh⟩ := abs_lt.mp h
  apply le_antisymm
  · exact (towardZero_le_iff le_rfl).mpr (by simpa using hhigh)
  · exact (le_towardZero_iff le_rfl).mpr (by simpa using hlow)

/-- The integer part of a number is that of its value. -/
theorem truncate?_eq_map (n : Number) : n.truncate? = n.toRat?.map towardZero := by
  cases n with
  | finite negative m e =>
    have hfloor : ⌊(m * 2 ^ e : ℚ)⌋ = (numerator m e / denominator e : ℕ) := by
      rw [← numerator_div_denominator, Rat.floor_natCast_div_natCast, Int.natCast_ediv]
    have hpart : towardZero (m * 2 ^ e) = (numerator m e / denominator e : ℕ) := by
      rw [towardZero, if_pos (by positivity), hfloor]
    rw [truncate?, toRat?, Option.map_some, withSign, signed, ← hpart]
    cases negative with
    | false => rfl
    | true => exact congrArg some (towardZero_neg _).symm
  | infinite | nan => rfl

end Number

/-- Whether the integer part of a number is an integer of the type; infinities and NaN have none. -/
def IntegerType.HasPart (t : IntegerType) (n : Number) : Prop :=
  ∃ x, n.toRat? = some x ∧ t.lowest ≤ Number.towardZero x ∧ Number.towardZero x ≤ t.highest

namespace SampleType

/-- A value converts to the integer that is its integer part. -/
theorem convert_integer_eq_ok_iff_towardZero {source : SampleType} {w : source.Word}
    {t : IntegerType} {v : t.Word} : convert (integer t) source w = .ok v ↔
      ∃ x, (source.number w).toRat? = some x ∧ t.toInt v = Number.towardZero x := by
  simp only [convert, toInteger?, Number.truncate?_eq_map]
  cases (source.number w).toRat? with
  | none => simp
  | some x =>
    simp only [Option.map_some, Option.bind_some, Option.some.injEq, exists_eq_left',
      ← t.ofInt?_eq_some_iff]
    cases t.ofInt? (Number.towardZero x) with
    | none => simp
    | some u =>
      exact ⟨fun h => congrArg some (Except.ok.inj h),
        fun h => congrArg Except.ok (Option.some.inj h)⟩

/-- The same for another kind of integers that has the same patterns. -/
theorem map_convert_integer_eq_ok_iff {source : SampleType} {w : source.Word} {t : IntegerType}
    {α : Type} {f : t.Word → α} {g : α → t.Word} (hf : ∀ v, g (f v) = v) (hg : ∀ a, f (g a) = a)
    {a : α} : (convert (integer t) source w).map f = .ok a ↔
      ∃ x, (source.number w).toRat? = some x ∧ t.toInt (g a) = Number.towardZero x := by
  refine Except.map_eq_ok_iff.trans ?_
  constructor
  · rintro ⟨v, hv, rfl⟩
    rw [hf]
    exact convert_integer_eq_ok_iff_towardZero.mp hv
  · intro h
    exact ⟨g a, convert_integer_eq_ok_iff_towardZero.mpr h, hg a⟩

/-- An integral value converts to the pattern that means it. -/
theorem convert_integer_eq_ok_iff {source : SampleType} {w : source.Word} {k : ℤ}
    (h : (source.number w).toRat? = some (k : ℚ)) {t : IntegerType} {v : t.Word} :
    convert (integer t) source w = .ok v ↔ t.toInt v = k := by
  simp only [convert_integer_eq_ok_iff_towardZero, h, Option.some.injEq, exists_eq_left',
    Number.towardZero_intCast]

/-- A value converts to an integer type exactly if its integer part is an integer of the type. -/
theorem exists_convert_integer_iff {source : SampleType} {w : source.Word} {t : IntegerType} :
    (∃ v, convert (integer t) source w = .ok v) ↔ t.HasPart (source.number w) := by
  constructor
  · rintro ⟨v, hv⟩
    obtain ⟨x, hx, hpart⟩ := convert_integer_eq_ok_iff_towardZero.mp hv
    exact ⟨x, hx, hpart ▸ t.toInt_bounds v⟩
  · rintro ⟨x, hx, hlow, hhigh⟩
    exact ⟨_, convert_integer_eq_ok_iff_towardZero.mpr ⟨x, hx, t.toInt_ofInt hlow hhigh⟩⟩

/-- A value that does not convert is named, with both types. -/
theorem error_of_convert {target : IntegerType} {source : SampleType} {w : source.Word}
    {e : ConversionError} (h : convert (integer target) source w = .error e) :
    e = .unrepresentable source (source.number w) (integer target) := by
  simp only [convert] at h
  split at h
  · cases h
  · cases h
    rfl

theorem toRat?_number_integer (t : IntegerType) (w : t.Word) :
    ((integer t).number w).toRat? = some (t.toInt w : ℚ) :=
  Number.toRat?_ofInt _

end SampleType

/-! ### Types that have all numbers of another one -/

namespace FloatType

/-- The integers of at most the precision of a format are numbers of it. -/
theorem fits_of_int {t : FloatType} {n : ℤ} (h : |n| < 2 ^ (t.fractionBits + 1)) : t.Fits n := by
  refine ⟨n, 0, h, ?_, by rw [zpow_zero, mul_one]⟩
  cases t <;> decide

/-- The largest number of a format is beyond its precision. -/
theorem abs_le_largest_of_int {t : FloatType} {n : ℤ} (h : |n| < 2 ^ (t.fractionBits + 1)) :
    |(n : ℚ)| ≤ t.largest := by
  have hlargest : 2 ^ (t.fractionBits + 1) ≤ t.largest := by cases t <;> decide
  have h' : |n| ≤ t.largest := h.le.trans (by exact_mod_cast hlargest)
  exact_mod_cast h'

/-- A double has every number that a single has. -/
theorem Fits.double {x : ℚ} (h : float32.Fits x) : float64.Fits x := by
  obtain ⟨m, e, hm, he, rfl⟩ := h
  exact ⟨m, e, lt_trans hm (by decide), le_trans (by decide) he, rfl⟩

theorem largest_le_double : float32.largest ≤ float64.largest := by
  decide

theorem payload_lt {t : FloatType} {w : t.Word} {negative : Bool} {payload : ℕ}
    (h : t.meaning w = .nan negative payload) : payload < 2 ^ 52 := by
  have hfraction : w.toNat % 2 ^ t.fractionBits < 2 ^ t.fractionBits :=
    Nat.mod_lt _ (Nat.two_pow_pos _)
  simp only [meaning, Nat.one_shiftLeft] at h
  split at h
  · split at h <;> cases h
    cases t <;> simp only [fractionBits, Nat.shiftLeft_eq] at hfraction ⊢ <;> omega
  · split at h <;> cases h

theorem isNan_quietNan (t : FloatType) (negative : Bool) {payload : ℕ} (h : payload < 2 ^ 52) :
    (t.meaning (t.quietNan negative payload)).isNan = true := by
  have hquiet : 1 <<< (t.fractionBits - 1) < 2 ^ t.fractionBits := by cases t <;> decide
  have hpayload : payload >>> (52 - t.fractionBits) < 2 ^ t.fractionBits := by
    rw [Nat.shiftRight_eq_div_pow]
    cases t <;> simp only [fractionBits] <;> omega
  have hlt := Nat.or_lt_two_pow hpayload hquiet
  have hpos : 0 < payload >>> (52 - t.fractionBits) ||| 1 <<< (t.fractionBits - 1) :=
    Nat.lt_of_lt_of_le (shiftLeft_pos Nat.one_pos _) Nat.right_le_or
  have hroom : t.infinity + 2 ^ t.fractionBits = 2 ^ (t.bits - 1) := by cases t <;> decide
  obtain ⟨payload', hnan⟩ := t.meaning_pattern_of_gt negative
    (p := t.infinity + (payload >>> (52 - t.fractionBits) ||| 1 <<< (t.fractionBits - 1)))
    (by omega) (by omega)
  rw [quietNan, hnan, Number.isNan]

/-- A float of a type that has all numbers of its own keeps its number. -/
theorem same_convert {t s : FloatType} (h : s.fractionBits ≤ t.fractionBits) (w : s.Word) :
    (t.meaning (t.convert s w)).Same (s.meaning w) := by
  match t, s, h with
  | float32, float32, _ | float64, float64, _ => exact Number.same_self _
  | float32, float64, h => exact absurd h (by decide)
  | float64, float32, _ =>
    rw [convert]
    cases hm : float32.meaning w with
    | finite negative m e =>
      obtain ⟨x, hx⟩ : ∃ x, float32.value? w = some x := ⟨_, by rw [value?, hm]; rfl⟩
      have hlargest : |x| ≤ float64.largest :=
        (abs_le_largest hx).trans (by exact_mod_cast largest_le_double)
      have hdouble := float64.value?_ofNumber_of_fits hx hlargest (fits_of_value? hx).double
      rw [← hm]
      exact .inl (.inr ⟨x, hdouble, hx⟩)
    | infinite negative =>
      exact .inl (.inl ⟨negative, float64.meaning_pattern_infinity negative, rfl⟩)
    | nan negative payload =>
      exact .inr ⟨float64.isNan_quietNan negative (payload_lt hm), rfl⟩

end FloatType

namespace SampleType

/-- Whether a type has all numbers of another one: by its bounds if it is of integers, and by its
precision if it is of floats. -/
def Covers : (target source : SampleType) → Prop
  | integer t, integer s => t.lowest ≤ s.lowest ∧ s.highest ≤ t.highest
  | floating t, integer s =>
    -2 ^ (t.fractionBits + 1) < s.lowest ∧ s.highest < 2 ^ (t.fractionBits + 1)
  | floating t, floating s => s.fractionBits ≤ t.fractionBits
  | integer _, floating _ => False

instance : (target source : SampleType) → Decidable (Covers target source)
  | integer _, integer _ => inferInstanceAs (Decidable (_ ∧ _))
  | floating _, integer _ => inferInstanceAs (Decidable (_ ∧ _))
  | floating _, floating _ => inferInstanceAs (Decidable (_ ≤ _))
  | integer _, floating _ => inferInstanceAs (Decidable False)

/-- **A type that has all numbers of another one keeps them.** -/
theorem convert_of_covers {target source : SampleType} (h : target.Covers source)
    (w : source.Word) :
    ∃ v, convert target source w = .ok v ∧ (target.number v).Same (source.number w) := by
  match target, source, h with
  | integer t, integer s, h =>
    obtain ⟨hlow, hhigh⟩ := s.toInt_bounds w
    obtain ⟨v, hv⟩ : ∃ v, t.toInt v = s.toInt w :=
      ⟨_, t.toInt_ofInt (h.1.trans hlow) (hhigh.trans h.2)⟩
    refine ⟨v, (convert_integer_eq_ok_iff (toRat?_number_integer s w)).mpr hv, ?_⟩
    exact .inl (.inr ⟨s.toInt w, by rw [toRat?_number_integer, hv], toRat?_number_integer s w⟩)
  | floating t, integer s, h =>
    obtain ⟨hlow, hhigh⟩ := s.toInt_bounds w
    have habs : |s.toInt w| < 2 ^ (t.fractionBits + 1) :=
      abs_lt.mpr ⟨h.1.trans_le hlow, hhigh.trans_lt h.2⟩
    refine ⟨_, rfl, .inl (.inr ⟨s.toInt w, ?_, toRat?_number_integer s w⟩)⟩
    exact t.value?_ofNumber_of_fits (Number.toRat?_ofInt _)
      (FloatType.abs_le_largest_of_int habs) (FloatType.fits_of_int habs)
  | floating t, floating s, h => exact ⟨_, rfl, FloatType.same_convert h w⟩

end SampleType

end SegY
