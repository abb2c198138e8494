import SegY.Proofs.ContainedCodec
import SegY.Proofs.RefusedTraces

/-!
# The table of lossless formats — complete but for two entries

A format holds a sample type exactly if the type of its samples has every number of it
(`SampleType.Holds`).  That is a statement about up to `2 ^ 64` values, and it is decided by bounds:
a type that does not cover another one misses its lowest or highest integer, the first odd integer
beyond its precision, or an infinity.

So the table can be compared with what it should list.  It lists nothing else
(`SampleType.covers_of_lossless`), and everything but unsigned integers of 16 bits as singles and of
32 bits as doubles, although it lists the signed ones.

* `SampleType.holds_iff_covers`: which types have every number of another one.
* `SampleType.isLossless_iff_holds`: what the table lists, and what an append refuses for it.
* `SampleType.unlisted_uint16`: the table is not complete.
-/

namespace SegY

/-- An odd integer beyond the precision of a format is no number of it. -/
theorem FloatType.not_fits_of_odd {t : FloatType} {k : ℤ} (hodd : k % 2 = 1)
    (hk : 2 ^ (t.fractionBits + 1) < |k|) : ¬ t.Fits k := by
  rintro ⟨m, e, hm, -, hme⟩
  rcases le_or_gt e 0 with he | he
  · -- without a positive power of two the significand is at least as large
    have hpow : (2 : ℚ) ^ e ≤ 1 := zpow_le_one_of_nonpos₀ one_le_two he
    have hle : |(k : ℚ)| ≤ |(m : ℚ)| := by
      rw [hme, abs_mul, abs_of_pos (two_zpow_pos e)]
      exact mul_le_of_le_one_right (abs_nonneg _) hpow
    have hle' : |k| ≤ |m| := by exact_mod_cast hle
    omega
  · obtain ⟨d, rfl⟩ := Int.eq_succ_of_zero_lt he
    have heven : (k : ℚ) = (2 * (m * 2 ^ d) : ℤ) := by
      rw [hme]
      push_cast
      rw [zpow_add_one₀ two_ne_zero, zpow_natCast]
      ring
    have heven' : k = 2 * (m * 2 ^ d) := by exact_mod_cast heven
    omega

namespace SampleType

/-! ### Types that have every number of another one -/

/-- Whether a type has every number of another one. -/
def Holds (target source : SampleType) : Prop :=
  ∀ w : source.Word, ∃ v : target.Word, (target.number v).Same (source.number w)

theorem exists_number_eq {s : IntegerType} {k : ℤ} (hlow : s.lowest ≤ k) (hhigh : k ≤ s.highest) :
    ∃ w : s.Word, ((integer s).number w).toRat? = some (k : ℚ) :=
  ⟨BitVec.ofInt s.bits k, (toRat?_number_integer s _).trans (by rw [s.toInt_ofInt hlow hhigh])⟩

/-- Integers that have all of another type have its bounds. -/
theorem Holds.bounds {t s : IntegerType} (h : (integer t).Holds (integer s)) {k : ℤ}
    (hlow : s.lowest ≤ k) (hhigh : k ≤ s.highest) : t.lowest ≤ k ∧ k ≤ t.highest := by
  obtain ⟨w, hw⟩ := exists_number_eq hlow hhigh
  obtain ⟨v, hv⟩ := h w
  have hvalue := (toRat?_number_integer t v).symm.trans (hv.toRat?_eq.trans hw)
  have hk : t.toInt v = k := by exact_mod_cast Option.some.inj hvalue
  exact hk ▸ t.toInt_bounds v

/-- No integer is an infinity. -/
theorem not_holds_floating (t : IntegerType) (s : FloatType) :
    ¬ (integer t).Holds (floating s) := by
  intro h
  obtain ⟨v, hv⟩ := h (s.pattern false s.infinity)
  have hnone : ((floating s).number (s.pattern false s.infinity)).toRat? = none :=
    congrArg Number.toRat? (s.meaning_pattern_infinity false)
  cases (toRat?_number_integer t v).symm.trans (hv.toRat?_eq.trans hnone)

theorem Holds.fits {t : FloatType} {source : SampleType} (h : (floating t).Holds source)
    {w : source.Word} {x : ℚ} (hw : (source.number w).toRat? = some x) : t.Fits x := by
  obtain ⟨v, hv⟩ := h w
  exact FloatType.fits_of_value? (hv.toRat?_eq.trans hw)

/-- Floats that have all integers of a type have its precision: otherwise they miss the first odd
integer beyond their own. -/
theorem Holds.precision {t : FloatType} {s : IntegerType} (h : (floating t).Holds (integer s)) :
    (floating t).Covers (integer s) := by
  by_contra hcovers
  have hbeyond : s.lowest ≤ 2 ^ (t.fractionBits + 1) + 1 ∧
      2 ^ (t.fractionBits + 1) + 1 ≤ s.highest := by
    revert hcovers
    cases t <;> cases s <;> decide
  obtain ⟨w, hw⟩ := exists_number_eq hbeyond.1 hbeyond.2
  refine FloatType.not_fits_of_odd ?_ ?_ (h.fits hw) <;> cases t <;> decide

/-- Singles miss the largest odd integer that is a double. -/
theorem not_holds_double : ¬ float32.Holds float64 := by
  intro h
  have hvalue : (float64.number _).toRat? = some ((2 ^ 53 - 1 : ℤ) : ℚ) :=
    FloatType.float64.value?_ofNumber_of_fits (Number.toRat?_ofInt (2 ^ 53 - 1))
      (FloatType.abs_le_largest_of_int (by decide)) (FloatType.fits_of_int (by decide))
  exact FloatType.not_fits_of_odd (by decide) (by decide) (h.fits hvalue)

/-- **Which types have every number of another one**: those that cover it. -/
theorem holds_iff_covers {target source : SampleType} :
    target.Holds source ↔ target.Covers source := by
  constructor
  · intro h
    cases target with
    | integer t =>
      cases source with
      | integer s =>
        have hle : s.lowest ≤ s.highest := by cases s <;> decide
        exact ⟨(h.bounds le_rfl hle).1, (h.bounds hle le_rfl).2⟩
      | floating s => exact absurd h (not_holds_floating t s)
    | floating t =>
      cases source with
      | integer s => exact h.precision
      | floating s =>
        cases t with
        | float64 => cases s <;> decide
        | float32 =>
          cases s with
          | float32 => decide
          | float64 => exact absurd h not_holds_double
  · intro h w
    obtain ⟨v, -, hv⟩ := convert_of_covers h w
    exact ⟨v, hv⟩

/-! ### The table -/

/-- The formats that hold a type exactly, and are not listed for it. -/
def unlisted : List (SampleType × SampleFormat) := [(.uint16, .ieeeFloat), (.uint32, .ieeeDouble)]

theorem isLossless_iff_covers {t : SampleType} {f : SampleFormat} {target : SampleType}
    (hf : f.storage = .native target) :
    t.isLossless f = true ↔ target.Covers t ∧ (t, f) ∉ unlisted := by
  have table : ∀ t ∈ all, ∀ f ∈ SampleFormat.all, ∀ target ∈ all, f.storage = .native target →
      (t.isLossless f = true ↔ target.Covers t ∧ (t, f) ∉ unlisted) := by
    decide
  exact table t t.mem_all f f.mem_all target target.mem_all hf

theorem covers_of_unlisted {t : SampleType} {f : SampleFormat} {target : SampleType}
    (hf : f.storage = .native target) (h : (t, f) ∈ unlisted) : target.Covers t := by
  have table : ∀ entry ∈ unlisted, ∀ target ∈ all, entry.2.storage = .native target →
      target.Covers entry.1 := by
    decide
  exact table _ h target target.mem_all hf

end SampleType

/-! ### Appends -/

namespace Writer

variable {w : Writer} {t : NewTrace} (hlossless : t.lossless = true)
include hlossless

/-- Only a trace in a format that is not listed for its type is refused as lossy. -/
theorem encode_eq_lossy_iff :
    w.encode t = .error (.conversion (.lossy t.type w.binary.format)) ↔
      t.type.isLossless w.binary.format = false := by
  have hencoder : w.encoder t = t.type.losslessEncoder w.binary.format := by
    rw [encoder, if_pos hlossless]
  constructor
  · intro he
    by_contra hlisted
    rw [Bool.not_eq_false, ← SampleType.exists_losslessEncoder_iff] at hlisted
    obtain ⟨encodeSample, hencode⟩ := hlisted
    rw [encode, hencoder, hencode] at he
    rcases Except.bind_eq_error_iff.mp he with h | ⟨_, h, he⟩
    · cases h
    cases h
    -- nothing that comes after the choice of the encoder fails like that
    revert he
    refine Except.bind_ne_error ?shape fun _ => Except.bind_ne_error ?header fun _ =>
      Except.bind_ne_error ?samples fun _ => Except.ok_ne_error
    case shape =>
      intro h
      obtain ⟨e, -, he⟩ := Except.mapError_eq_error_iff.mp h
      cases he
    case header =>
      intro h
      obtain ⟨e, he, hlossy⟩ := Except.mapError_eq_error_iff.mp h
      obtain ⟨c, hc⟩ := TraceHeader.error_of_toBytes he
      rcases CoordinateFormat.error_of_encode hc with ⟨-, rfl⟩ | ⟨-, value, rfl⟩ <;> cases hlossy
    case samples =>
      intro h
      obtain ⟨e, he, -⟩ := Except.mapError_eq_error_iff.mp h
      obtain ⟨v, -, hv⟩ := Except.exists_error_of_mapM he
      obtain ⟨_, _, -, hstored, -⟩ := SampleType.losslessEncoder_kept hencode w.binary.order v
      cases hv.symm.trans hstored
  · intro h
    rw [encode, hencoder, SampleType.losslessEncoder, h]
    rfl

theorem append_eq_lossy_iff (d : Directory) :
    (w.append d t).2.2 = .error (.conversion (.lossy t.type w.binary.format)) ↔
      t.type.isLossless w.binary.format = false := by
  rw [append_result_eq, Except.bind_eq_error_iff, ← encode_eq_lossy_iff hlossless]
  refine or_iff_left ?_
  rintro ⟨encoded, -, he⟩
  obtain ⟨e, -, hsystem⟩ := Except.mapError_eq_error_iff.mp he
  cases hsystem

end Writer

namespace SampleType

/-- **The table of lossless formats is complete but for two entries.**  For every sample type and
every format whose samples are of a type: the format is listed exactly if that type has every number
of the sample type, unless they are unsigned integers of 16 bits and singles, or unsigned integers
of 32 bits and doubles.  These the formats hold as well, and losslessly nothing is appended there.

So a trace that is to be appended losslessly is refused as lossy exactly if the format does not hold
its type, or for one of these two. -/
theorem isLossless_iff_holds {t : SampleType} {f : SampleFormat} {target : SampleType}
    (hf : f.storage = .native target) :
    (t.isLossless f = true ↔ target.Holds t ∧ (t, f) ∉ unlisted) ∧
    ((t, f) ∈ unlisted → target.Holds t ∧ t.losslessEncoder f = .error (.lossy t f)) ∧
    ∀ (w : Writer) (d : Directory) (new : NewTrace), w.binary.format = f → new.type = t →
      new.lossless = true →
      ((w.append d new).2.2 = .error (.conversion (.lossy t f)) ↔
        target.Holds t → (t, f) ∈ unlisted) := by
  have hlisted : t.isLossless f = true ↔ target.Holds t ∧ (t, f) ∉ unlisted := by
    rw [holds_iff_covers, isLossless_iff_covers hf]
  refine ⟨hlisted, fun h => ⟨holds_iff_covers.mpr (covers_of_unlisted hf h), ?_⟩, ?_⟩
  · have hnot : ¬ t.isLossless f = true := fun hl => (hlisted.mp hl).2 h
    rw [losslessEncoder, if_neg hnot]
  · rintro w d new rfl rfl hlossless
    rw [Writer.append_eq_lossy_iff hlossless, ← Bool.not_eq_true, hlisted]
    exact not_and_not_right

/-- Unsigned integers of 16 bits as singles are held, not listed, and not appended. -/
theorem isLossless_iff_holds_uint16 :
    float32.Holds uint16 ∧ uint16.isLossless .ieeeFloat = false ∧
      uint16.losslessEncoder .ieeeFloat = .error (.lossy .uint16 .ieeeFloat) := by
  obtain ⟨hlisted, hunlisted, -⟩ := isLossless_iff_holds (t := .uint16) (f := .ieeeFloat) rfl
  have hmem : (uint16, SampleFormat.ieeeFloat) ∈ unlisted := by decide
  exact ⟨(hunlisted hmem).1, Bool.eq_false_iff.mpr fun h => (hlisted.mp h).2 hmem,
    (hunlisted hmem).2⟩

/-- **Not every format that holds a type exactly is listed for it**: singles hold all unsigned
integers of 16 bits. -/
theorem unlisted_uint16 :
    ¬ ∀ (t : SampleType) (f : SampleFormat) (target : SampleType), f.storage = .native target →
      target.Holds t → t.isLossless f = true := by
  intro hall
  have hholds : float32.Holds uint16 := holds_iff_covers.mpr (by decide)
  have hlisted := hall .uint16 .ieeeFloat .float32 rfl hholds
  exact absurd hlisted (by decide)

end SampleType

end SegY
