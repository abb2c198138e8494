import SegY.Proofs.FileCodec

/-!
# The binary header — read and written again

`BinaryHeader.ofBytes_toBytes` follows a header through its bytes; this module follows bytes through
the header.  The byte order in which everything is read is itself read off the marker, and what is
written again tells it by a marker of its own.

* `rewritten_toBytes`: what becomes of each byte of a header that was read and is written again.
* `round_trip`: with default settings, reading and writing binary headers undo each other except for
  what the header does not hold; which bytes cannot be read; and writing again changes nothing more.
-/

namespace SegY.BinaryHeader
open Bytes (slice Apart)

/-! ### What is read -/

/-- With default settings a header is read part by part, in the byte order that the marker tells. -/
theorem parts_of_ofBytes {b : Bytes} {h : BinaryHeader} (hread : ofBytes {} b = .ok h) :
    formatOfCode (number {} b formatStart) = .ok h.format ∧
      flagOfCode (number {} b flagStart) = .ok h.fixedLength ∧ h.order = detectOrder b ∧
      ∀ f : BinaryField,
        h.field f = f.kind.decode (detectOrder b) (slice b f.start f.kind.width) := by
  obtain ⟨format, hformat, hread⟩ := Except.bind_eq_ok_iff.mp hread
  obtain ⟨fixedLength, hflag, hread⟩ := Except.bind_eq_ok_iff.mp hread
  cases hread
  exact ⟨hformat, hflag, rfl, fun f => by cases f <;> rfl⟩

theorem code_of_formatOfCode {n : Nat} {f : SampleFormat} (h : formatOfCode n = .ok f) :
    n = f.code := by
  rw [formatOfCode] at h
  split at h
  · next hcode =>
    cases h
    have hf := List.find?_some hcode
    simp only [beq_iff_eq, Int.natCast_inj] at hf
    exact hf.symm
  · cases h

theorem toNat_of_flagOfCode {n : Nat} {flag : Bool} (h : flagOfCode n = .ok flag) :
    n = flag.toNat := by
  rw [flagOfCode] at h
  split at h
  · next hzero =>
    cases h
    exact Int.natCast_inj.mp hzero
  · split at h
    · next hone =>
      cases h
      exact Int.natCast_inj.mp hone
    · cases h

/-! ### What is written again -/

/-- Bytes `b'` that hold what the bytes `b` hold in a byte order. -/
structure Rewritten (order : ByteOrder) (b b' : Bytes) : Prop where
  /-- There are 400 bytes. -/
  length : b'.length = 400
  /-- A field of fixed place is as it was, if it is a number or a code of its vocabulary. -/
  known : ∀ f : BinaryField, f.kind.isUnknown order (slice b f.start f.kind.width) = false →
    slice b' f.start f.kind.width = slice b f.start f.kind.width
  /-- A code that its vocabulary does not have became zero. -/
  unknown : ∀ f : BinaryField, f.kind.isUnknown order (slice b f.start f.kind.width) = true →
    f.kind.width = 2 ∧ slice b' f.start 2 = [0, 0]
  /-- The code of the sample format is as it was. -/
  format : slice b' 24 2 = slice b 24 2
  /-- The flag of fixed-length traces is as it was. -/
  flag : slice b' 302 2 = slice b 302 2
  /-- The marker is one of the two, whatever it was. -/
  marker : slice b' 96 4 = if order = .little then [1, 2, 3, 4] else [4, 3, 2, 1]
  /-- A byte that belongs to no part became zero. -/
  unassigned : ∀ i < 400, (∀ r ∈ layout, Apart (i, 1) r) → b'[i]? = some 0

theorem mem_layout_field (f : BinaryField) : (f.start, f.kind.width) ∈ layout :=
  List.mem_append_left _ (List.mem_map_of_mem f.mem_all)

/-- A number that was read is written as it was. -/
theorem store_number {b : Bytes} (hb : b.length = HeaderKind.binary.length) {start : Nat}
    (hr : (start, 2) ∈ layout) : (detectOrder b).store 2 (number {} b start) = slice b start 2 :=
  ByteOrder.store_of_load (disjoint_layout.length_slice hb hr) fun _ => rfl

/-- **What is written of a header that was read**: each part as it was, but that unknown codes and
what belongs to no part become zeros, and the marker is that of the byte order it told. -/
theorem rewritten_toBytes {b : Bytes} (hb : b.length = HeaderKind.binary.length)
    {h : BinaryHeader} (hread : ofBytes {} b = .ok h) :
    Rewritten (detectOrder b) b h.toBytes := by
  obtain ⟨hformat, hflag, horder, hfield⟩ := parts_of_ofBytes hread
  have hslice : ∀ f : BinaryField, slice h.toBytes f.start f.kind.width =
      f.kind.encode (detectOrder b)
        (f.kind.decode (detectOrder b) (slice b f.start f.kind.width)) := fun f => by
    rw [slice_field, horder, hfield]
  constructor
  case length => exact h.length_toBytes
  case known =>
    intro f hknown
    rw [hslice, FieldKind.encode_decode_of_known ?_ hknown]
    exact disjoint_layout.length_slice hb (mem_layout_field f)
  case unknown =>
    intro f hunknown
    obtain ⟨hwidth, hzero⟩ := FieldKind.encode_decode_of_unknown hunknown
    exact ⟨hwidth, by rw [← hzero, ← hslice, hwidth]⟩
  case format =>
    have hcode := h.slice_format
    rwa [horder, ← code_of_formatOfCode hformat, store_number hb (by simp [layout])] at hcode
  case flag =>
    have hcode := h.slice_flag
    rwa [horder, ← toNat_of_flagOfCode hflag, store_number hb (by simp [layout])] at hcode
  case marker =>
    refine h.slice_marker.trans ?_
    rw [horder]
    cases detectOrder b <;> rfl
  case unassigned => exact fun i hi => h.getElem?_toBytes hi

/-! ### Both ways -/

theorem decode_of_length (s : Settings) {b : Bytes} (hb : b.length = HeaderKind.binary.length) :
    decode s b = (ofBytes s b).mapError .unknownCode := if_pos hb

/-- **The codec of binary headers, both ways.**  With default settings a header that was written is
read back, in either byte order, but that an invalid code says nothing.

And 400 bytes are read in the byte order that the marker tells.  They are no header exactly if no
format has the code at 24, which is looked at first, or the flag at 302 is neither 0 nor 1.  The
header that they are is written as it was read, up to the marker, unknown codes and bytes that
belong to no part; and what was so written is read, and written again, as it is. -/
theorem round_trip :
    (∀ h : BinaryHeader, decode {} h.toBytes = .ok h.settled) ∧
    ∀ b : Bytes, b.length = 400 →
      let order : ByteOrder := if slice b 96 4 = [1, 2, 3, 4] then .little else .big
      let format := order.load (slice b 24 2)
      let flag := order.load (slice b 302 2)
      (decode {} b).FailsBy [
        fun e => (∀ f : SampleFormat, f.code ≠ format) ∧ e = .unknownCode (.sampleFormat format),
        fun e => flag ≠ 0 ∧ flag ≠ 1 ∧ e = .unknownCode (.fixedLength flag)] ∧
      ((∃ f : SampleFormat, f.code = format) → flag = 0 ∨ flag = 1 → ∃ h,
        decode {} b = .ok h ∧ h.order = order ∧ Rewritten order b h.toBytes ∧
        decode {} h.toBytes = .ok h.settled ∧ h.settled.toBytes = h.toBytes) := by
  have hback : ∀ h : BinaryHeader, decode {} h.toBytes = .ok h.settled := fun h => by
    rw [decode_of_length _ h.length_toBytes, ofBytes_toBytes, Except.mapError_ok]
  refine ⟨hback, fun b hb => ?_⟩
  have hfails := failsBy_ofBytes {} b
  rw [← decode_of_length _ hb] at hfails
  simp only [true_and] at hfails
  refine ⟨hfails, ?_⟩
  rintro ⟨f, hformat⟩ hflag
  obtain ⟨h, hread⟩ := hfails.exists_ok_iff.mpr fun test htest e he => by
    simp only [List.mem_cons, List.not_mem_nil, or_false] at htest
    rcases htest with rfl | rfl
    · exact he.1 f hformat
    · exact hflag.elim he.1 he.2.1
  have hof : ofBytes {} b = .ok h := by
    rw [decode_of_length _ hb] at hread
    exact Except.mapError_eq_ok_iff.mp hread
  exact ⟨h, hread, (parts_of_ofBytes hof).2.2.1, rewritten_toBytes hb hof, hback h,
    h.toBytes_settled⟩

/-- A little-endian header with a code 77 that traces are not sorted by, and a byte 9 that belongs
to no part. -/
def strayBytes : Bytes :=
  Bytes.assemble 400 [(24, [3, 0]), (28, [77, 0]), (96, [1, 2, 3, 4]), (200, [9]), (302, [1, 0])]

/-- Both stray bytes are gone when it is written again. -/
theorem round_trip_strayBytes : ∃ h, decode {} strayBytes = .ok h ∧ h.order = .little ∧
    slice h.toBytes 28 2 = [0, 0] ∧ h.toBytes[200]? = some 0 ∧
    decode {} h.toBytes = .ok h.settled := by
  obtain ⟨-, hread⟩ := round_trip.2 strayBytes (by decide +kernel)
  obtain ⟨h, hh, horder, hwritten, hback, -⟩ := hread ⟨.int16, by decide +kernel⟩
    (.inr (by decide +kernel))
  have hlittle : h.order = .little := horder.trans (by decide +kernel)
  rw [← horder, hlittle] at hwritten
  exact ⟨h, hh, hlittle, (hwritten.unknown .sorting (by decide +kernel)).2,
    hwritten.unassigned 200 (by decide) (by decide +kernel), hback⟩

end SegY.BinaryHeader
