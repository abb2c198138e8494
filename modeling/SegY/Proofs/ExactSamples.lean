import SegY.Proofs.Conversion
import SegY.Proofs.Results
import SegY.Sample

/-!
# Samples that are read back

A sample takes two conversions, from the type of its trace to that of the format when it is
written, and from there to single precision when it is read.  Integers of up to 24 bits survive
both, whatever the types are, as long as the format has them: every float has them, the power of two
at the end included, and an integer type has those of its range.

* `FloatType.value?_convert`: a float keeps what the other format has.
* `SampleType.exists_convert_of_int`: such an integer survives each single conversion.
* `SampleFormat.decode_encode_of_integer`: so it is read back from every format that is read and
  written.
-/

namespace SegY

/-! ### Single conversions -/

namespace FloatType

/-- The integers up to the first power of two beyond the precision are numbers of a format: that
power needs a single bit. -/
theorem fits_of_int_le {t : FloatType} {n : ℤ} (h : |n| ≤ 2 ^ (t.fractionBits + 1)) :
    t.Fits n := by
  rcases h.lt_or_eq with hlt | heq
  · exact fits_of_int hlt
  · have hpower : t.Fits (2 ^ (t.fractionBits + 1) : ℤ) := by
      refine ⟨1, (t.fractionBits + 1 : ℕ), ?_, ?_, ?_⟩
      · cases t <;> decide
      · cases t <;> decide
      · rw [zpow_natCast]
        simp
    rcases (abs_eq (by positivity)).mp heq with rfl | rfl
    · exact hpower
    · simpa [Number.withSign] using hpower.withSign true

theorem abs_le_largest_of_int_le {t : FloatType} {n : ℤ} (h : |n| ≤ 2 ^ (t.fractionBits + 1)) :
    |(n : ℚ)| ≤ t.largest := by
  have hlargest : 2 ^ (t.fractionBits + 1) ≤ t.largest := by cases t <;> decide
  have h' : |n| ≤ t.largest := h.trans (by exact_mod_cast hlargest)
  exact_mod_cast h'

/-- A float that becomes one of another format keeps its value, if that format has it. -/
theorem value?_convert {t s : FloatType} {w : s.Word} {x : ℚ} (hw : s.value? w = some x)
    (hfits : t.Fits x) (hle : |x| ≤ t.largest) : t.value? (t.convert s w) = some x := by
  cases t with
  | float32 =>
    cases s with
    | float32 => exact hw
    | float64 =>
      rw [convert, saturate_of_le hw hle]
      exact float32.value?_ofNumber_of_fits hw hle hfits
  | float64 =>
    cases s with
    | float32 => exact float64.value?_ofNumber_of_fits hw hle hfits
    | float64 => exact hw

end FloatType

namespace SampleType

/-- Whether a type has an integer of up to 24 bits: floats have all of them. -/
def HasInteger : SampleType → ℤ → Prop
  | integer t, k => t.lowest ≤ k ∧ k ≤ t.highest
  | floating _, _ => True

instance : ∀ (t : SampleType) (k : ℤ), Decidable (t.HasInteger k)
  | integer _, _ => inferInstanceAs (Decidable (_ ∧ _))
  | floating _, _ => inferInstanceAs (Decidable True)

variable {target source : SampleType} {w : source.Word} {k : ℤ}

/-- **An integer of up to 24 bits survives conversion** to every type that has it. -/
theorem exists_convert_of_int (hw : (source.number w).toRat? = some (k : ℚ)) (hk : |k| ≤ 2 ^ 24)
    (hrange : target.HasInteger k) :
    ∃ v, convert target source w = .ok v ∧ (target.number v).toRat? = some (k : ℚ) := by
  cases target with
  | integer t =>
    have hv : t.toInt (BitVec.ofInt t.bits k) = k := t.toInt_ofInt hrange.1 hrange.2
    exact ⟨_, (convert_integer_eq_ok_iff hw).mpr hv, by rw [toRat?_number_integer, hv]⟩
  | floating t =>
    have hprecision : |k| ≤ 2 ^ (t.fractionBits + 1) := hk.trans (by cases t <;> decide)
    have hfits : t.Fits (k : ℚ) := FloatType.fits_of_int_le hprecision
    have hle : |(k : ℚ)| ≤ t.largest := FloatType.abs_le_largest_of_int_le hprecision
    refine ⟨_, rfl, ?_⟩
    cases source with
    | integer s => exact t.value?_ofNumber_of_fits hw hle hfits
    | floating s => exact FloatType.value?_convert hw hfits hle

end SampleType

/-! ### Written and read -/

namespace SampleFormat

/-- A format that is both written and read holds its samples as values of a type, and is written and
read by converting to that type and from it. -/
theorem exists_storage {t : SampleType} {f : SampleFormat}
    {encode : ByteOrder → t.Word → Except ConversionError Bytes}
    {decode : ByteOrder → Bytes → Float32Word} (hencode : t.encoder f = .ok encode)
    (hdecode : f.decoder = .ok decode) : ∃ stored, f.storage = .native stored ∧
      (∀ order w, encode order w =
        (SampleType.convert stored t w).map (stored.store order)) ∧
      ∀ order b, decode order b = stored.toFloat .float32 (stored.load order b) := by
  rw [SampleType.encoder] at hencode
  rw [decoder] at hdecode
  split at hencode
  · cases hencode
  · next stored hstorage =>
    rw [hstorage] at hdecode
    cases hencode
    cases hdecode
    exact ⟨stored, hstorage, fun _ _ => rfl, fun _ _ => rfl⟩
  · cases hencode
  · cases hencode

/-- **Integers of up to 24 bits are read back.**  Ten formats are both written and read, and hold
their samples as values of a type.  For each of them, every sample type and both byte orders: a
value that is an integer of at most `2 ^ 24` in magnitude, and in the range of that type if it is of
integers, is written, and read as a single that equals it.  And a single is read back from a file of
singles as the pattern that it was. -/
theorem decode_encode_of_integer :
    (∀ (t : SampleType) (f : SampleFormat),
      ((∃ encode, t.encoder f = .ok encode) ∧ ∃ decode, f.decoder = .ok decode) ↔
        f ∉ [ibmFloat, fixedPoint, int24, uint24]) ∧
    (∀ (t : SampleType) (f : SampleFormat) (encode) (decode), t.encoder f = .ok encode →
      f.decoder = .ok decode → ∃ stored, f.storage = .native stored ∧
        ∀ (order : ByteOrder) (w : t.Word) (k : ℤ), (t.number w).toRat? = some (k : ℚ) →
          |k| ≤ 2 ^ 24 → stored.HasInteger k → ∃ b, encode order w = .ok b ∧ b.length = f.width ∧
            FloatType.float32.value? (decode order b) = some (k : ℚ)) ∧
    ∃ encode decode, SampleType.float32.encoder ieeeFloat = .ok encode ∧
      ieeeFloat.decoder = .ok decode ∧ ∀ (order : ByteOrder) (w : SampleType.float32.Word),
        ∃ b, encode order w = .ok b ∧ decode order b = w := by
  refine ⟨fun t f => by cases f <;> simp [SampleType.encoder, decoder, storage], ?_, ?_⟩
  · intro t f encode decode hencode hdecode
    obtain ⟨stored, hstorage, hwrite, hread⟩ := exists_storage hencode hdecode
    refine ⟨stored, hstorage, fun order w k hw hk hrange => ?_⟩
    obtain ⟨v, hv, hvalue⟩ := SampleType.exists_convert_of_int hw hk hrange
    obtain ⟨single, hsingle, hback⟩ : ∃ single,
        SampleType.convert .float32 stored v = .ok single ∧
          FloatType.float32.value? single = some (k : ℚ) :=
      SampleType.exists_convert_of_int hvalue hk trivial
    refine ⟨stored.store order v, ?_, ?_, ?_⟩
    · rw [hwrite, hv]
      rfl
    · rw [SampleType.length_store, width_of_native hstorage]
    · rw [hread, SampleType.load_store]
      cases hsingle
      exact hback
  · refine ⟨_, _, rfl, rfl, fun order w => ⟨SampleType.float32.store order w, rfl, ?_⟩⟩
    exact SampleType.load_store .float32 order w

/-- The double `2 ^ 24` is written as an unsigned 32-bit integer, and read as a single. -/
theorem decode_encode_of_integer_double :
    ∃ encode decode b, SampleType.float64.encoder uint32 = .ok encode ∧
      uint32.decoder = .ok decode ∧
      encode .little (0x4170000000000000 : SampleType.float64.Word) = .ok b ∧ b.length = 4 ∧
      FloatType.float32.value? (decode .little b) = some 16777216 := by
  have hvalue : (SampleType.float64.number
      (0x4170000000000000 : SampleType.float64.Word)).toRat? = some ((16777216 : ℤ) : ℚ) := by
    decide +kernel
  obtain ⟨-, hback, -⟩ := decode_encode_of_integer
  obtain ⟨stored, hstorage, hread⟩ := hback .float64 uint32 _ _ rfl rfl
  cases hstorage
  obtain ⟨b, hb, hlength, hsingle⟩ := hread .little _ _ hvalue (by decide) (by decide)
  exact ⟨_, _, b, rfl, rfl, hb, hlength, hsingle⟩

end SampleFormat

end SegY
