import Mathlib.Order.WithBotTop
import SegY.Proofs.HexadecimalFloats
import SegY.Proofs.IntegerConversion
import SegY.Sample

/-!
# Samples in their order

Whatever the format, a sample that is read has the value of the number that is stored, saturated to
single precision (`SampleFormat.exists_saturate_of_stored?`), and saturating keeps order.  If the
floats nearest to two numbers were in the wrong order, then each number would be no nearer to the
float of the other, and that cannot be of both; and the value of a float depends on that of the
number alone.

The infinities are values here, below and above all others, and so the order is that in which floats
are compared: zeros of both signs are equal, and NaN has no place in it.

* `FloatType.IsNearest.le_of_lt`: nearest floats are in the order of their numbers.
* `FloatType.exists_saturate`, `exists_saturate_le`: what saturating makes of a value, in order.
* `SampleFormat.decode_monotone`: samples are read in their order, and as infinities only from
  beyond all singles.
-/

namespace SegY

/-- The rational numbers with an infinity at each end. -/
abbrev ExtendedRat := WithBotTop ℚ

namespace Number

/-- The value of a number, which may be an infinity; NaN has none. -/
def extended? : Number → Option ExtendedRat
  | finite negative m e => some (withSign negative (m * 2 ^ e) : ℚ)
  | infinite negative => some (if negative then ⊥ else ⊤)
  | nan _ _ => none

variable {n : Number}

theorem extended?_of_toRat? {q : ℚ} (h : n.toRat? = some q) :
    n.extended? = some (q : ExtendedRat) := by
  cases n with
  | finite negative m e =>
    cases h
    rfl
  | infinite | nan => cases h

theorem extended?_eq_some_iff {x : ExtendedRat} : n.extended? = some x ↔
    (∃ q : ℚ, n.toRat? = some q ∧ x = q) ∨ n = .infinite true ∧ x = ⊥ ∨
      n = .infinite false ∧ x = ⊤ := by
  cases n with
  | finite negative m e => simp [extended?, toRat?, eq_comm]
  | infinite negative => cases negative <;> simp [extended?, toRat?, eq_comm]
  | nan => simp [extended?, toRat?]

end Number

namespace FloatType

variable {t : FloatType}

/-! ### Rounding in order -/

section Rounding

variable {n n' : Number} {x y : ℚ}

/-- Nearest floats are in the order of their numbers: otherwise the squares of the distances would
together be less if the floats were exchanged. -/
theorem IsNearest.le_of_lt {w w' : t.Word} {u v : ℚ} (hu : t.IsNearest x w u)
    (hv : t.IsNearest y w' v) (hlt : x < y) : u ≤ v := by
  by_contra hgt
  have hx : (u - x) ^ 2 ≤ (v - x) ^ 2 := sq_le_sq.mpr (hu.nearest _ _ hv.value)
  have hy : (v - y) ^ 2 ≤ (u - y) ^ 2 := sq_le_sq.mpr (hv.nearest _ _ hu.value)
  have hexchange : 0 < (u - v) * (y - x) :=
    mul_pos (sub_pos.mpr (not_le.mp hgt)) (sub_pos.mpr hlt)
  linarith

/-- **Rounding keeps order.** -/
theorem exists_ofNumber_le (hn : n.toRat? = some x) (hn' : n'.toRat? = some y)
    (hx : |x| ≤ t.largest) (hy : |y| ≤ t.largest) (hle : x ≤ y) :
    ∃ u v, t.value? (t.ofNumber n) = some u ∧ t.value? (t.ofNumber n') = some v ∧ u ≤ v := by
  obtain ⟨u, hu⟩ := t.isNearest_ofNumber hn hx
  obtain ⟨v, hv⟩ := t.isNearest_ofNumber hn' hy
  refine ⟨u, v, hu.value, hv.value, ?_⟩
  rcases hle.eq_or_lt with rfl | hlt
  · have hsame := value?_ofNumber_congr hn hn' hx
    rw [hu.value, hv.value, Option.some.injEq] at hsame
    exact hsame.le
  · exact hu.le_of_lt hv hlt

end Rounding

/-! ### Saturating in order -/

/-- The value of a pattern, which may be an infinity. -/
def extended? (t : FloatType) (w : t.Word) : Option ExtendedRat := (t.meaning w).extended?

theorem extended?_pattern_infinity (t : FloatType) (negative : Bool) :
    t.extended? (t.pattern negative t.infinity) = some (if negative then ⊥ else ⊤) := by
  rw [extended?, meaning_pattern_infinity, Number.extended?]

/-- A float is saturated to itself. -/
theorem extended?_saturate_meaning {w : t.Word} {x : ExtendedRat} (h : t.extended? w = some x) :
    t.extended? (t.saturate (t.meaning w)) = some x := by
  rcases Number.extended?_eq_some_iff.mp h with ⟨q, hq, rfl⟩ | ⟨hn, rfl⟩ | ⟨hn, rfl⟩
  · have hle := abs_le_largest hq
    rw [saturate_of_le hq hle, extended?,
      Number.extended?_of_toRat? (t.value?_ofNumber_of_fits hq hle (fits_of_value? hq))]
  · rw [hn]
    exact t.extended?_pattern_infinity true
  · rw [hn]
    exact t.extended?_pattern_infinity false

section Saturating

variable {n n' : Number} {x y : ExtendedRat} (h : n.extended? = some x)
include h

/-- What is above all floats becomes the infinity there. -/
theorem extended?_saturate_of_gt (hx : ((t.largest : ℚ) : ExtendedRat) < x) :
    t.extended? (t.saturate n) = some ⊤ := by
  have hsaturate : t.saturate n = t.pattern false t.infinity := by
    rcases Number.extended?_eq_some_iff.mp h with ⟨q, hq, rfl⟩ | ⟨rfl, rfl⟩ | ⟨rfl, -⟩
    · have hlt : (t.largest : ℚ) < q := WithBotTop.coe_lt_coe.mp hx
      have hpos : 0 < q := lt_of_le_of_lt (Nat.cast_nonneg _) hlt
      have hmagnitude := Number.hasMagnitude_of_ne_zero hq hpos.ne'
      rw [abs_of_pos hpos, decide_eq_false hpos.le.not_gt] at hmagnitude
      exact saturate_of_hasMagnitude_gt hmagnitude hlt
    · exact absurd hx not_lt_bot
    · rfl
  rw [hsaturate, extended?_pattern_infinity]
  rfl

/-- What is below all floats becomes the infinity there. -/
theorem extended?_saturate_of_lt (hx : x < ((-t.largest : ℚ) : ExtendedRat)) :
    t.extended? (t.saturate n) = some ⊥ := by
  have hsaturate : t.saturate n = t.pattern true t.infinity := by
    rcases Number.extended?_eq_some_iff.mp h with ⟨q, hq, rfl⟩ | ⟨rfl, -⟩ | ⟨rfl, rfl⟩
    · have hlt : q < -t.largest := WithBotTop.coe_lt_coe.mp hx
      have hneg : q < 0 := hlt.trans_le (neg_nonpos.mpr (Nat.cast_nonneg _))
      have hmagnitude := Number.hasMagnitude_of_ne_zero hq hneg.ne
      rw [abs_of_neg hneg, decide_eq_true hneg] at hmagnitude
      exact saturate_of_hasMagnitude_gt hmagnitude (lt_neg_of_lt_neg hlt)
    · rfl
    · exact absurd hx not_top_lt
  rw [hsaturate, extended?_pattern_infinity]
  rfl

/-- All other numbers are rounded. -/
theorem saturate_eq_ofNumber (hlow : ((-t.largest : ℚ) : ExtendedRat) ≤ x)
    (hhigh : x ≤ ((t.largest : ℚ) : ExtendedRat)) :
    ∃ q : ℚ, x = q ∧ n.toRat? = some q ∧ |q| ≤ t.largest ∧ t.saturate n = t.ofNumber n := by
  rcases Number.extended?_eq_some_iff.mp h with ⟨q, hq, rfl⟩ | ⟨-, rfl⟩ | ⟨-, rfl⟩
  · have hle : |q| ≤ t.largest := abs_le.mpr
      ⟨WithBotTop.coe_le_coe.mp hlow, WithBotTop.coe_le_coe.mp hhigh⟩
    exact ⟨q, rfl, hq, hle, saturate_of_le hq hle⟩
  · simp at hlow
  · simp at hhigh

/-- A value is saturated to an infinity exactly if it is beyond the largest float on that side. -/
theorem exists_saturate : ∃ u, t.extended? (t.saturate n) = some u ∧
    (u = ⊤ ↔ ((t.largest : ℚ) : ExtendedRat) < x) ∧
    (u = ⊥ ↔ x < ((-t.largest : ℚ) : ExtendedRat)) := by
  have hends : ((-t.largest : ℚ) : ExtendedRat) ≤ ((t.largest : ℚ) : ExtendedRat) :=
    WithBotTop.coe_le_coe.mpr (neg_le_self (Nat.cast_nonneg _))
  rcases lt_or_ge x ((-t.largest : ℚ) : ExtendedRat) with hlt | hlow
  · have hnot := (hlt.trans_le hends).not_gt
    exact ⟨⊥, extended?_saturate_of_lt h hlt, iff_of_false bot_ne_top hnot, iff_of_true rfl hlt⟩
  · rcases lt_or_ge ((t.largest : ℚ) : ExtendedRat) x with hgt | hhigh
    · have hnot := (hends.trans_lt hgt).not_gt
      exact ⟨⊤, extended?_saturate_of_gt h hgt, iff_of_true rfl hgt, iff_of_false top_ne_bot hnot⟩
    · obtain ⟨q, -, hq, hle, hsaturate⟩ := saturate_eq_ofNumber h hlow hhigh
      obtain ⟨v, hv⟩ := t.isNearest_ofNumber hq hle
      refine ⟨v, ?_, iff_of_false (by simp) hhigh.not_gt, iff_of_false (by simp) hlow.not_gt⟩
      rw [hsaturate]
      exact Number.extended?_of_toRat? hv.value

/-- **Saturating keeps order.** -/
theorem exists_saturate_le (h' : n'.extended? = some y) (hle : x ≤ y) : ∃ u v,
    t.extended? (t.saturate n) = some u ∧
    t.extended? (t.saturate n') = some v ∧ u ≤ v := by
  rcases lt_or_ge x ((-t.largest : ℚ) : ExtendedRat) with hlt | hlow
  · obtain ⟨v, hv, -⟩ := exists_saturate (t := t) h'
    exact ⟨⊥, v, extended?_saturate_of_lt h hlt, hv, bot_le⟩
  rcases lt_or_ge ((t.largest : ℚ) : ExtendedRat) y with hgt | hhigh
  · obtain ⟨u, hu, -⟩ := exists_saturate (t := t) h
    exact ⟨u, ⊤, hu, extended?_saturate_of_gt h' hgt, le_top⟩
  obtain ⟨p, rfl, hp, hple, hsaturate⟩ := saturate_eq_ofNumber h hlow (hle.trans hhigh)
  obtain ⟨q, rfl, hq, hqle, hsaturate'⟩ := saturate_eq_ofNumber h' (hlow.trans hle) hhigh
  obtain ⟨u, v, hu, hv, huv⟩ := exists_ofNumber_le hp hq hple hqle (WithBotTop.coe_le_coe.mp hle)
  rw [hsaturate, hsaturate']
  exact ⟨u, v, Number.extended?_of_toRat? hu, Number.extended?_of_toRat? hv,
    WithBotTop.coe_le_coe.mpr huv⟩

end Saturating

end FloatType

/-! ### Samples as singles -/

/-- A value that is read as a single is saturated: integers are not beyond all singles, and a single
stays as it is. -/
theorem SampleType.extended?_toFloat (t : SampleType) (w : t.Word) {x : ExtendedRat}
    (h : (t.number w).extended? = some x) :
    FloatType.float32.extended? (t.toFloat .float32 w) =
      FloatType.float32.extended? (FloatType.float32.saturate (t.number w)) := by
  cases t with
  | integer t =>
    have hint := SampleType.toRat?_number_integer t w
    have hle : |(t.toInt w : ℚ)| ≤ FloatType.float32.largest := by
      obtain ⟨hlow, hhigh⟩ := t.toInt_bounds_word w
      have hword : |t.toInt w| ≤ 2 ^ 64 := abs_le.mpr ⟨by omega, hhigh.le⟩
      have hlargest : (2 : ℤ) ^ 64 ≤ FloatType.float32.largest := by decide
      exact_mod_cast hword.trans hlargest
    rw [FloatType.saturate_of_le hint hle]
    rfl
  | floating t =>
    cases t with
    | float64 => rfl
    | float32 =>
      have hvalue : FloatType.float32.extended? w = some x := h
      exact hvalue.trans (FloatType.extended?_saturate_meaning hvalue).symm

namespace SampleFormat

/-- The exact value of a stored sample: an integer, a binary float or a hexadecimal one. -/
def stored? (f : SampleFormat) (order : ByteOrder) (b : Bytes) : Option ExtendedRat :=
  match f.storage with
  | .ibm => (Ibm.meaning b).extended?
  | .native t => (t.number (t.load order b)).extended?
  | .fixedPoint | .int24 => none

/-- A sample that is read is the number that is stored, saturated. -/
theorem exists_saturate_of_stored? {f : SampleFormat} {decode : ByteOrder → Bytes → Float32Word}
    (hdecode : f.decoder = .ok decode) {order : ByteOrder} {b : Bytes} {x : ExtendedRat}
    (h : f.stored? order b = some x) : ∃ n : Number, n.extended? = some x ∧
      FloatType.float32.extended? (decode order b) =
        FloatType.float32.extended? (FloatType.float32.saturate n) := by
  rw [decoder] at hdecode
  rw [stored?] at h
  cases hstorage : f.storage with
  | ibm =>
    simp only [hstorage, Except.ok.injEq] at hdecode h
    subst hdecode
    exact ⟨_, h, rfl⟩
  | native t =>
    simp only [hstorage, Except.ok.injEq] at hdecode h
    subst hdecode
    exact ⟨_, h, SampleType.extended?_toFloat _ _ h⟩
  | fixedPoint | int24 => simp [hstorage] at h

/-- **Samples are read in their order.**  Eleven formats are read.  Take two samples in one of them
and in either byte order, and let their exact values, infinities included, not be NaN.  They are
read as singles that are not NaN either; if the one value is at most the other, then so are the
singles, and a single is an infinity exactly if the value is beyond the largest single on that
side. -/
theorem decode_monotone (f : SampleFormat) :
    ((∃ decode, f.decoder = .ok decode) ↔ f ∉ [fixedPoint, int24, uint24]) ∧
    ∀ decode, f.decoder = .ok decode → ∀ order a b x y,
      f.stored? order a = some x → f.stored? order b = some y →
      ∃ u v, FloatType.float32.extended? (decode order a) = some u ∧
        FloatType.float32.extended? (decode order b) = some v ∧
        (x ≤ y → u ≤ v) ∧
        (u = ⊤ ↔ ((FloatType.float32.largest : ℚ) : ExtendedRat) < x) ∧
        (u = ⊥ ↔ x < ((-FloatType.float32.largest : ℚ) : ExtendedRat)) := by
  constructor
  · cases f <;> simp [decoder, storage]
  intro decode hdecode order a b x y hx hy
  obtain ⟨m, hm, hread⟩ := exists_saturate_of_stored? hdecode hx
  obtain ⟨n, hn, hread'⟩ := exists_saturate_of_stored? hdecode hy
  rw [hread, hread']
  obtain ⟨u, hu, htop, hbot⟩ := FloatType.exists_saturate (t := .float32) hm
  obtain ⟨v, hv, -⟩ := FloatType.exists_saturate (t := .float32) hn
  refine ⟨u, v, hu, hv, fun hle => ?_, htop, hbot⟩
  obtain ⟨u', v', hu', hv', hle'⟩ := FloatType.exists_saturate_le (t := .float32) hm hn hle
  rw [hu, Option.some.injEq] at hu'
  rw [hv, Option.some.injEq] at hv'
  exact hu' ▸ hv' ▸ hle'

/-- The double of the largest single is read as that single, and the next double as an infinity. -/
theorem decode_monotone_largest : ∃ decode u v, ieeeDouble.decoder = .ok decode ∧
    FloatType.float32.extended? (decode .big [0x47, 0xEF, 0xFF, 0xFF, 0xE0, 0, 0, 0]) = some u ∧
    FloatType.float32.extended? (decode .big [0x47, 0xEF, 0xFF, 0xFF, 0xE0, 0, 0, 1]) = some v ∧
    u ≤ v ∧ u ≠ ⊤ ∧ v = ⊤ := by
  have hlargest : (FloatType.float32.largest : ℚ) = 9007198717870080 * 2 ^ (75 : ℤ) := by
    have hinteger : FloatType.float32.largest = 9007198717870080 * 2 ^ 75 := by decide
    exact_mod_cast hinteger
  obtain ⟨-, hread⟩ := decode_monotone ieeeDouble
  obtain ⟨u, v, hu, hv, hle, htop, -⟩ := hread _ rfl .big [0x47, 0xEF, 0xFF, 0xFF, 0xE0, 0, 0, 0]
    [0x47, 0xEF, 0xFF, 0xFF, 0xE0, 0, 0, 1] (((9007198717870080 : ℕ) * 2 ^ (75 : ℤ) : ℚ))
    (((9007198717870081 : ℕ) * 2 ^ (75 : ℤ) : ℚ)) rfl rfl
  obtain ⟨v', u', hv', hu', -, htop', -⟩ := hread _ rfl .big [0x47, 0xEF, 0xFF, 0xFF, 0xE0, 0, 0, 1]
    [0x47, 0xEF, 0xFF, 0xFF, 0xE0, 0, 0, 0] (((9007198717870081 : ℕ) * 2 ^ (75 : ℤ) : ℚ))
    (((9007198717870080 : ℕ) * 2 ^ (75 : ℤ) : ℚ)) rfl rfl
  refine ⟨_, u, v, rfl, hu, hv, hle ?_, ?_, ?_⟩
  · norm_cast
  · rw [Ne, htop, hlargest]
    norm_cast
  · rw [hv, Option.some.injEq] at hv'
    rw [hv', htop', hlargest]
    norm_cast

end SampleFormat

end SegY
