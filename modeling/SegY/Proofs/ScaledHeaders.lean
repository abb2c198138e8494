import SegY.Proofs.IntegerScaling
import SegY.Writer

/-!
# The trace header — with scaled coordinates

A trace can be appended with the coordinates of its ensemble, which are scaled into its header.
What is then in the header is said here without the steps that put it there.

* `TraceHeader.withEnsemble`: the header, by the coordinates that it is to have.
* `CoordinateScalar.stored?`: a coordinate as it is stored, in the arithmetic of its type.
* `CoordinateScalar.stores_of_stored?`: it is the exact quotient by the multiplier, rounded as the
  type rounds it, and then without its fraction.
* `CoordinateScalar.exists_quotient_of_ofMultiplier`: so it is for every scalar that can be made.
* `Writer.scaledHeader_eq_ok_iff`: headers with stored coordinates are what the writer makes.
-/

namespace SegY

namespace TraceHeader

/-- The coordinates of the ensemble, after the scalar that they are to be read with. -/
def ensemble (h : TraceHeader) : Int16 × Int32 × Int32 :=
  (h.field .coordinateScalar, h.coordinate .cdpX, h.coordinate .cdpY)

/-- The header with this scalar and these coordinates of its ensemble. -/
def withEnsemble (h : TraceHeader) (scalar : Int16) (x y : Int32) : TraceHeader where
  field
    | .coordinateScalar => scalar
    | f => h.field f
  coordinate
    | .cdpX => x
    | .cdpY => y
    | c => h.coordinate c
  inline := h.inline
  crossline := h.crossline
  name := h.name

end TraceHeader

/-! ### Stored coordinates -/

/-- An integer, if it has 32 bits. -/
def int32? (n : ℤ) : Option Int32 :=
  if -2147483648 ≤ n ∧ n ≤ 2147483647 then some (Int32.ofInt n) else none

theorem int32?_eq_some_iff {n : ℤ} {r : Int32} : int32? n = some r ↔ r.toInt = n := by
  have hlow := r.le_toInt
  have hhigh := r.toInt_lt
  rw [int32?]
  constructor
  · intro h
    split at h
    · cases h
      exact Int32.toInt_ofInt_of_le (by omega) (by omega)
    · cases h
  · rintro rfl
    rw [if_pos ⟨by omega, by omega⟩, Int32.ofInt_toInt]

namespace SampleType

/-- The integer part of the quotient of two values, as the arithmetic of their type has it. -/
def wholeQuotient? : (t : SampleType) → t.Word → t.Word → Option ℤ
  | .integer t, x, m => some (t.toInt (BitVec.ofInt t.bits ((t.toInt x).tdiv (t.toInt m))))
  | .floating t, x, m => (t.value? (t.divide (t.meaning x) (t.meaning m))).map Number.towardZero

/-- Whether a type has a number as this value: integers lose the fraction, and of the floats it is
the nearest one. -/
def HasAs : SampleType → ℚ → ℚ → Prop
  | .integer _, x, v => v = Number.towardZero x
  | .floating t, x, v => ∃ w, t.IsNearest x w v

end SampleType

namespace FloatType

variable {t : FloatType}

/-- What divides by a positive number is rounded to the nearest float of the exact quotient. -/
theorem isNearest_divide {n m : Number} {a b v : ℚ} (hn : n.toRat? = some a)
    (hm : m.toRat? = some b) (hb : 0 < b) (hv : t.value? (t.divide n m) = some v) :
    t.IsNearest (a / b) (t.divide n m) v := by
  cases n with
  | infinite | nan => cases hn
  | finite negative k e =>
  cases m with
  | infinite | nan => cases hm
  | finite negative' k' e' =>
    cases hn
    cases hm
    have hnonneg : (0 : ℚ) ≤ k' * 2 ^ e' := by positivity
    obtain rfl : negative' = false := by
      cases negative' with
      | false => rfl
      | true => exact absurd hb (not_lt.mpr (neg_nonpos.mpr hnonneg))
    have hk : 0 < k' := by
      rcases Nat.eq_zero_or_pos k' with rfl | hk
      · simp [Number.withSign] at hb
      · exact hk
    have hquotient : ((Number.numerator k e * Number.denominator e' : ℕ) : ℚ) /
        (Number.denominator e * Number.numerator k' e' : ℕ) = k * 2 ^ e / (k' * 2 ^ e') := by
      rw [← Number.numerator_div_denominator, ← Number.numerator_div_denominator, div_div_div_eq,
        Nat.cast_mul, Nat.cast_mul]
    have hden : 0 < Number.denominator e * Number.numerator k' e' :=
      Nat.mul_pos (Number.denominator_pos e) (shiftLeft_pos hk _)
    have hnear := t.isNearest_round_of_value? hden hv
    rw [hquotient] at hnear
    cases negative with
    | false => exact hnear
    | true => rwa [Number.withSign, if_pos rfl, ← neg_div] at hnear

/-- Only numbers have a finite quotient. -/
theorem exists_toRat?_of_divide {w : t.Word} {m : Number} {v : ℚ}
    (hv : t.value? (t.divide (t.meaning w) m) = some v) : ∃ a, (t.meaning w).toRat? = some a := by
  generalize hn : t.meaning w = n at hv
  cases n with
  | finite negative k e => exact ⟨_, rfl⟩
  | infinite negative =>
      have hdivide : t.divide (.infinite negative) m = t.pattern negative t.infinity := by
        cases m <;> rfl
      rw [hdivide, value?, meaning_pattern_infinity] at hv
      cases hv
  | nan negative payload =>
      have hdivide : t.divide (.nan negative payload) m = t.quietNan negative payload := by
        cases m <;> rfl
      rw [hdivide, value?,
        Number.toRat?_of_isNan (isNan_quietNan t negative (payload_lt hn))] at hv
      cases hv

end FloatType

namespace CoordinateScalar

variable {t : SampleType} {c : CoordinateScalar t} {x : t.Word} {r : Int32}

/-- A coordinate as it is stored, if that has 32 bits. -/
def stored? (c : CoordinateScalar t) (x : t.Word) : Option Int32 :=
  (t.wholeQuotient? x c.multiplier).bind int32?

/-- Whether an integer is what is stored of a coordinate.  The coordinate is divided by the
multiplier, which is a positive number, and loses what the type and then the integers do not
have. -/
def Stores (c : CoordinateScalar t) (x : t.Word) (r : Int32) : Prop :=
  ∀ m, (t.number c.multiplier).toRat? = some m → 0 < m →
    ∃ a v, (t.number x).toRat? = some a ∧ t.HasAs (a / m) v ∧ r.toInt = Number.towardZero v

theorem stored?_eq_some_iff :
    c.stored? x = some r ↔ t.wholeQuotient? x c.multiplier = some r.toInt := by
  simp only [stored?, Option.bind_eq_some_iff, int32?_eq_some_iff, exists_eq_right']

/-- What scaling gives is the coordinate as it is stored. -/
theorem scaleToInt32_eq_ok_iff_stored? : c.scaleToInt32 x = .ok r ↔ c.stored? x = some r := by
  rw [scaleToInt32_eq_ok_iff, stored?_eq_some_iff]
  cases t with
  | integer t => exact exists_toRat?_integer_iff.trans (eq_comm.trans Option.some_inj.symm)
  | floating t =>
      rw [SampleType.wholeQuotient?, Option.map_eq_some_iff]
      exact exists_congr fun q => and_congr_right fun _ => eq_comm

/-- **What is stored is the exact quotient**, rounded as the type rounds it, and without its
fraction. -/
theorem stores_of_stored? (h : c.stored? x = some r) : c.Stores x r := by
  rw [stored?_eq_some_iff] at h
  intro m hm hpos
  cases t with
  | integer t =>
      cases hm.symm.trans (SampleType.toRat?_number_integer t c.multiplier)
      have hpos' : 0 < t.toInt c.multiplier := by exact_mod_cast hpos
      have hquotient : r.toInt = (t.toInt x).tdiv (t.toInt c.multiplier) := by
        rw [← toInt_scale hpos']
        exact (Option.some.inj h).symm
      refine ⟨t.toInt x, r.toInt, SampleType.toRat?_number_integer t x, ?_,
        (Number.towardZero_intCast _).symm⟩
      rw [SampleType.HasAs, Number.towardZero_div hpos', hquotient]
  | floating t =>
      obtain ⟨v, hv, hr⟩ := Option.map_eq_some_iff.mp h
      obtain ⟨a, ha⟩ := FloatType.exists_toRat?_of_divide hv
      exact ⟨a, v, ha, ⟨_, FloatType.isNearest_divide ha hm hpos hv⟩, hr.symm⟩

example : stored? (t := .int32) ⟨10000, 10000⟩ 12000 = some 1 := by decide

/-- By 0.01, the coordinate 52 is stored as 5200. -/
example : stored? (t := .float64) ⟨0x3F847AE147AE147B, -100⟩ 0x404A000000000000 = some 5200 := by
  decide +kernel

/-- The multiplier of every scalar is a positive number. -/
theorem exists_multiplier_of_ofMultiplier {m : t.Word} (h : ofMultiplier t m = .ok c) :
    ∃ q, (t.number c.multiplier).toRat? = some q ∧ 0 < q := by
  have hpos : (t.number m).isPositive = true := by
    by_contra hpos
    rw [ofMultiplier, if_neg hpos] at h
    cases h
  rw [ofMultiplier, if_pos hpos] at h
  cases hn : t.number m with
  | finite negative k e =>
      rw [hn, Number.isPositive, Bool.and_eq_true, Bool.not_eq_true', bne_iff_ne] at hpos
      obtain ⟨rfl, hk⟩ := hpos
      have hk' : (0 : ℚ) < k := by exact_mod_cast Nat.pos_of_ne_zero hk
      have hmultiplier : c.multiplier = m := by
        split at h
        · cases h
          rfl
        · obtain ⟨_, -, rfl⟩ := Except.map_eq_ok_iff.mp h
          rfl
        · obtain ⟨_, -, rfl⟩ := Except.map_eq_ok_iff.mp h
          rfl
      rw [hmultiplier, hn]
      exact ⟨k * 2 ^ e, rfl, by positivity⟩
  | infinite negative =>
      -- above 1, but no integer
      rw [hn, Number.compareOne] at h
      obtain ⟨_, hs, -⟩ := Except.map_eq_ok_iff.mp h
      obtain ⟨_, hvalue, -⟩ := toInt16_eq_ok_iff.mp hs
      rw [hn] at hvalue
      cases hvalue
  | nan negative payload =>
      rw [hn] at hpos
      cases hpos

/-- **A scalar that was made from a multiplier stores exact quotients**, rounded as the type rounds
them, and without their fractions. -/
theorem exists_quotient_of_ofMultiplier {m : t.Word} (hc : ofMultiplier t m = .ok c)
    (hr : c.scaleToInt32 x = .ok r) :
    ∃ q a v, (t.number c.multiplier).toRat? = some q ∧ 0 < q ∧ (t.number x).toRat? = some a ∧
      t.HasAs (a / q) v ∧ r.toInt = Number.towardZero v := by
  obtain ⟨q, hq, hpos⟩ := exists_multiplier_of_ofMultiplier hc
  obtain ⟨a, v, hquotient⟩ := stores_of_stored? (scaleToInt32_eq_ok_iff_stored?.mp hr) q hq hpos
  exact ⟨q, a, v, hq, hpos, hquotient⟩

end CoordinateScalar

/-! ### The header -/

/-- **The writer makes the header with the stored coordinates.** -/
theorem Writer.scaledHeader_eq_ok_iff {t : SampleType} {given header : TraceHeader}
    {c : CoordinateScalar t} {x y : t.Word} :
    scaledHeader given c x y = .ok header ↔ ∃ cdpX cdpY, c.stored? x = some cdpX ∧
      c.stored? y = some cdpY ∧ header = given.withEnsemble c.scalar cdpX cdpY := by
  have hheader : ∀ cdpX cdpY, ((given.set .coordinateScalar c.scalar).setCoordinate .cdpX cdpX
      ).setCoordinate .cdpY cdpY = given.withEnsemble c.scalar cdpX cdpY := fun cdpX cdpY => by
    simp only [TraceHeader.set, TraceHeader.setCoordinate, TraceHeader.withEnsemble,
      TraceHeader.mk.injEq, and_true]
    constructor
    · funext f
      cases f <;> rfl
    · funext d
      cases d <;> rfl
  rw [scaledHeader, Except.bind_eq_ok_iff]
  refine exists_congr fun cdpX => ?_
  rw [CoordinateScalar.scaleToInt32_eq_ok_iff_stored?, Except.bind_eq_ok_iff]
  simp only [hheader, CoordinateScalar.scaleToInt32_eq_ok_iff_stored?, ← exists_and_left]
  refine exists_congr fun cdpY => and_congr_right fun _ => and_congr_right fun _ => ?_
  exact ⟨fun h => (Except.ok.inj h).symm, fun h => h ▸ rfl⟩

end SegY
