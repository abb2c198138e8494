import SegY.Proofs.ContainedCodec
import SegY.Proofs.CoordinateCodec
import SegY.Proofs.HexadecimalFloats

/-!
# Coordinates that cannot be read

A trace header is read unless one of its coordinates has no integer part, or none that 32 bits hold
(`CoordinateFormat.IsUnreadable`).  What four bytes mean is exact in each of the four coordinate
formats (`CoordinateFormat.meaning`), also where they are hexadecimal floats that are read as
singles.

* `CoordinateFormat.decode_eq_ok_iff`: a coordinate is the integer part of what its bytes mean.
* `CoordinateFormat.exists_decode_iff`: which coordinates can be read.
* `TraceHeader.decode_fails_iff_unreadable`: so a header of any settings, whatever else is in it,
  fails for its coordinates alone.
-/

namespace SegY
open Bytes (slice)

/-! ### Single coordinates -/

namespace CoordinateFormat

/-- What four bytes mean in a coordinate format; hexadecimal floats are always big-endian. -/
def meaning (f : CoordinateFormat) (order : ByteOrder) (b : Bytes) : Number :=
  match f with
  | ibmFloat => Ibm.meaning b
  | ieeeFloat => SampleType.float32.number (SampleType.float32.load order b)
  | int32 => SampleType.int32.number (SampleType.int32.load order b)
  | uint32 => SampleType.uint32.number (SampleType.uint32.load order b)

/-- A value converts to the coordinate that is its integer part. -/
theorem map_convert_eq_ok_iff {source : SampleType} {w : source.Word} {n : Int32} :
    (SampleType.convert .int32 source w).map Int32.ofBitVec = .ok n ↔
      ∃ x, (source.number w).toRat? = some x ∧ n.toInt = Number.towardZero x :=
  SampleType.map_convert_integer_eq_ok_iff (t := .int32) (g := Int32.toBitVec) (fun _ => rfl)
    (fun _ => rfl)

/-- What has a coordinate as its integer part is not beyond all singles. -/
theorem abs_le_largest_of_towardZero {x : ℚ} {n : Int32} (h : n.toInt = Number.towardZero x) :
    |x| ≤ FloatType.float32.largest := by
  obtain ⟨hlow, hhigh⟩ := toInt_bounds n
  rw [h] at hlow hhigh
  have hlow' := (Number.le_towardZero_iff (k := -2 ^ 31) (by decide)).mp hlow
  have hhigh' := (Number.towardZero_le_iff (k := 2 ^ 31) (by decide)).mp hhigh.le
  have hlargest : (2 ^ 31 + 1 : ℚ) ≤ FloatType.float32.largest := by
    exact_mod_cast (by decide : 2 ^ 31 + 1 ≤ FloatType.float32.largest)
  push_cast at hlow' hhigh'
  exact abs_le.mpr ⟨by linarith, by linarith⟩

/-- A hexadecimal float has the same coordinate as the single that it is read as. -/
theorem exists_toFloat_iff {b : Bytes} {n : Int32} :
    (∃ x, FloatType.float32.value? (Ibm.toFloat b) = some x ∧ n.toInt = Number.towardZero x) ↔
      ∃ x, (Ibm.meaning b).toRat? = some x ∧ n.toInt = Number.towardZero x := by
  obtain ⟨x, hx⟩ := Ibm.exists_value b
  simp only [hx, Option.some.injEq, exists_eq_left']
  rcases le_or_gt |x| FloatType.float32.largest with hle | hgt
  · obtain ⟨v, hv, hpart⟩ := Ibm.value?_toFloat hx hle
    simp only [hv, Option.some.injEq, exists_eq_left', hpart]
  · -- an infinity is no coordinate, and neither is what is beyond all singles
    simp only [Ibm.value?_toFloat_eq_none hx hgt, reduceCtorEq, false_and, exists_false, false_iff]
    exact fun hn => absurd (abs_le_largest_of_towardZero hn) (not_le.mpr hgt)

/-- **A coordinate is the integer part of what its bytes mean.** -/
theorem decode_eq_ok_iff {f : CoordinateFormat} {order : ByteOrder} {b : Bytes} {n : Int32} :
    f.decode order b = .ok n ↔
      ∃ x, (f.meaning order b).toRat? = some x ∧ n.toInt = Number.towardZero x := by
  cases f with
  | int32 =>
    have hvalue := SampleType.toRat?_number_integer .int32 (SampleType.int32.load order b)
    simp only [decode, meaning, hvalue, Option.some.injEq, exists_eq_left',
      Number.towardZero_intCast, Except.ok.injEq]
    rw [eq_comm, ← Int32.toInt_inj]
    rfl
  | uint32 => exact map_convert_eq_ok_iff
  | ieeeFloat => exact map_convert_eq_ok_iff
  | ibmFloat => exact map_convert_eq_ok_iff.trans exists_toFloat_iff

/-- Whether a number is no coordinate: it is NaN or an infinity, or its integer part does not have
32 bits. -/
def IsUnreadable (n : Number) : Prop :=
  n.isNan = true ∨ (∃ negative, n = .infinite negative) ∨
    ∃ x, n.toRat? = some x ∧ (Number.towardZero x < -2 ^ 31 ∨ 2 ^ 31 ≤ Number.towardZero x)

theorem exists_decode_iff {f : CoordinateFormat} {order : ByteOrder} {b : Bytes} :
    (∃ n, f.decode order b = .ok n) ↔ ¬ IsUnreadable (f.meaning order b) := by
  simp only [decode_eq_ok_iff]
  cases f.meaning order b with
  | nan => simp [IsUnreadable, Number.isNan, Number.toRat?]
  | infinite => simp [IsUnreadable, Number.isNan, Number.toRat?]
  | finite negative m e =>
    simp only [IsUnreadable, Number.isNan, Number.toRat?, Option.some.injEq, exists_eq_left',
      Bool.false_eq_true, reduceCtorEq, exists_false, false_or, not_or, not_lt, not_le]
    constructor
    · rintro ⟨n, hn⟩
      exact hn ▸ toInt_bounds n
    · rintro ⟨hlow, hhigh⟩
      exact ⟨Int32.ofInt _, Int32.toInt_ofInt_of_le hlow hhigh⟩

end CoordinateFormat

/-! ### Headers -/

namespace TraceHeader

variable {order : ByteOrder} {s : Settings} {position : Int} {b : Bytes}

/-- Where the coordinates are: twelve at fixed places, and those of the ensemble where the settings
say. -/
def coordinateStarts (s : Settings) : List Nat :=
  [36, 40, 44, 48, 52, 56, 60, 64] ++ [72, 76, 80, 84] ++ [s.byte .cdpX, s.byte .cdpY]

theorem map_start (s : Settings) : Coordinate.all.map (Coordinate.start s) = coordinateStarts s :=
  rfl

theorem mem_coordinateStarts_iff {p : Nat} :
    p ∈ coordinateStarts s ↔ ∃ c : Coordinate, c.start s = p := by
  simp only [← map_start, List.mem_map, Coordinate.mem_all, true_and]

/-- **A header cannot be read exactly if it has an unreadable coordinate.**  For all settings that
can be made, in both byte orders and at every position: 240 bytes fail to be read as a header
exactly if what is stored at the place of one of the fourteen coordinates, which all lie in the
header, is NaN, an infinity, or a number whose integer part is below `-2 ^ 31` or not below
`2 ^ 31`.  The failure is one of conversion, and otherwise each coordinate is that integer part. -/
theorem decode_fails_iff_unreadable (hs : s.Reachable) (order : ByteOrder) (position : Int)
    (hb : b.length = 240) :
    let stored p := s.coordinateFormat.meaning order (slice b p 4)
    (∀ p ∈ coordinateStarts s, p + 4 ≤ 240) ∧
    ((∃ e, decode order s position b = .error e) ↔
      ∃ p ∈ coordinateStarts s, CoordinateFormat.IsUnreadable (stored p)) ∧
    (∀ e, decode order s position b = .error e → ∃ e', e = .conversion e') ∧
    ∀ h, decode order s position b = .ok h →
      List.Forall₂ (fun c p => ∃ x, (stored p).toRat? = some x ∧
        (h.coordinate c).toInt = Number.towardZero x) Coordinate.all (coordinateStarts s) := by
  intro stored
  have hlength : b.length = HeaderKind.trace.length := hb
  refine ⟨fun p hp => ?_, ?_, fun e he => ?_, fun h hh => ?_⟩
  · obtain ⟨c, rfl⟩ := mem_coordinateStarts_iff.mp hp
    have hc := coordinate_start_le hs.valid.byte_le c
    rw [GeometryField.lastByte] at hc
    omega
  · have hread : (∃ h, decode order s position b = .ok h) ↔
        ∀ c : Coordinate, ¬ CoordinateFormat.IsUnreadable (stored (c.start s)) := by
      simp only [decode, if_pos hlength, Except.mapError_eq_ok_iff, exists_ofBytes_iff]
      exact forall_congr' fun c => CoordinateFormat.exists_decode_iff
    rw [Except.exists_error_iff, hread]
    simp only [not_forall, not_not, mem_coordinateStarts_iff, exists_exists_eq_and]
  · obtain ⟨c, source, value, -, rfl⟩ := error_of_decode hlength he
    exact ⟨_, rfl⟩
  · rw [decode, if_pos hlength, Except.mapError_eq_ok_iff] at hh
    rw [← map_start, List.forall₂_map_right_iff, List.forall₂_same]
    exact fun c _ => CoordinateFormat.decode_eq_ok_iff.mp (readCoordinate_of_ofBytes hh c)

/-- Settings with a coordinate where no field begins, and with floats as coordinates. -/
def unaligned : Settings := .ofCalls [.byte .cdpX 33, .coordinateFormat .ieeeFloat]

/-- A header of zeros, but for four bytes across two fields. -/
def across (b : Bytes) : Bytes := List.replicate 33 0 ++ b ++ List.replicate 203 0

theorem length_across (b : Bytes) : (across b).length = b.length + 236 := by
  rw [across, List.length_append, List.length_append, List.length_replicate, List.length_replicate]
  omega

/-- At a place that no other coordinate has, the first single above all coordinates cannot be read,
and the one that is as far below zero can. -/
theorem decode_fails_iff_unreadable_across :
    (∃ e, decode .little unaligned 5 (across [0, 0, 0, 0x4F]) = .error e) ∧
    ∃ h, decode .little unaligned 5 (across [0, 0, 0, 0xCF]) = .ok h ∧
      (h.coordinate .cdpX).toInt = -2 ^ 31 := by
  have hreachable : unaligned.Reachable := Settings.reachable_ofCalls _
  -- the integer part of what is stored there
  have hpart : ∀ {b : Bytes} {k : ℤ},
      (CoordinateFormat.ieeeFloat.meaning .little (slice b 33 4)).truncate? = some k →
      ∃ x, (unaligned.coordinateFormat.meaning .little (slice b 33 4)).toRat? = some x ∧
        Number.towardZero x = k := fun {b k} h => by
    rw [Number.truncate?_eq_map, Option.map_eq_some_iff] at h
    exact h
  constructor
  · obtain ⟨-, hfails, -⟩ := decode_fails_iff_unreadable (b := across [0, 0, 0, 0x4F]) hreachable
      .little 5 (length_across _)
    obtain ⟨x, hx, hk⟩ := hpart (b := across [0, 0, 0, 0x4F]) (k := 2 ^ 31) (by decide)
    exact hfails.mpr ⟨33, by decide, .inr (.inr ⟨x, hx, .inr hk.ge⟩)⟩
  · obtain ⟨-, -, -, hcoordinates⟩ := decode_fails_iff_unreadable (b := across [0, 0, 0, 0xCF])
      hreachable .little 5 (length_across _)
    obtain ⟨h, hh⟩ := Except.isOk_iff.mp
      (by decide +kernel : (decode .little unaligned 5 (across [0, 0, 0, 0xCF])).isOk = true)
    have hread := hcoordinates h hh
    rw [← map_start, List.forall₂_map_right_iff, List.forall₂_same] at hread
    obtain ⟨x, hx, hn⟩ := hread .cdpX (Coordinate.mem_all _)
    obtain ⟨x', hx', hk⟩ := hpart (b := across [0, 0, 0, 0xCF]) (k := -2 ^ 31) (by decide)
    cases hx.symm.trans hx'
    exact ⟨h, hh, hn.trans hk⟩

end TraceHeader

end SegY
