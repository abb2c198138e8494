import SegY.Proofs.Conversion
import SegY.Proofs.ReadAgreement
import SegY.Proofs.SettingCalls

/-!
# The trace header — inside its bytes whatever the settings are

The codec of trace headers looks at no setting before it uses it.  That this is safe rests on what
the calls check, all of them together and in any order, also where some were refused.

* `span_of_isPiece`, `value_reading_bytes`: what is written of a header, and what is read of it, by
  the ranges where that happens; all of them lie in its 240 bytes, also if a coordinate fails half
  way.
* `CoordinateFormat.error_of_decode`, `error_of_encode`: a coordinate fails only for its value.
* `Settings.contained_ofCalls`: what holds of the settings that any calls leave, and of the codec
  under them.
-/

namespace SegY
open Bytes (assemble)

/-! ### How a coordinate fails -/

namespace CoordinateFormat

variable {f : CoordinateFormat} {order : ByteOrder} {e : ConversionError}

/-- A coordinate that cannot be read is a number that 32-bit integers do not have. -/
theorem error_of_decode {b : Bytes} (h : f.decode order b = .error e) :
    ∃ source value, e = .unrepresentable source value .int32 := by
  cases f with
  | int32 => cases h
  | uint32 | ieeeFloat | ibmFloat =>
      exact ⟨_, _, SampleType.error_of_convert (Except.map_eq_error_iff.mp h)⟩

/-- A coordinate that cannot be written is to be a hexadecimal float, or is a number that unsigned
integers do not have. -/
theorem error_of_encode {n : Int32} (h : f.encode order n = .error e) :
    f = .ibmFloat ∧ e = .ibmUnwritable ∨
      f = .uint32 ∧ ∃ value, e = .unrepresentable .int32 value .uint32 := by
  cases f with
  | int32 => cases h
  | ieeeFloat =>
      simp only [encode, Except.map_eq_error_iff] at h
      cases h
  | uint32 => exact .inr ⟨rfl, _, SampleType.error_of_convert (Except.map_eq_error_iff.mp h)⟩
  | ibmFloat =>
      cases h
      exact .inl ⟨rfl, rfl⟩

end CoordinateFormat

namespace TraceHeader

/-! ### What is written -/

/-- What is written of a header, and where.  A coordinate is written if it can be; the pieces before
one that cannot be are written all the same. -/
inductive IsPiece (order : ByteOrder) (s : Settings) (h : TraceHeader) : Nat × Bytes → Prop where
  | fixed {p : Nat × Bytes} (hp : p ∈ fixedPieces order (overridden s h)) : IsPiece order s h p
  | coordinate {c : Coordinate} {p : Nat × Bytes} (hp : coordinatePiece order s h c = .ok p) :
      IsPiece order s h p
  | line {p : Nat × Bytes} (hp : p ∈ linePieces order s h) : IsPiece order s h p

variable {order : ByteOrder} {s : Settings} {h : TraceHeader}

/-- The settings alone decide where something is written. -/
theorem span_of_isPiece {p : Nat × Bytes} (hp : IsPiece order s h p) :
    (p.1, p.2.length) ∈ layout s := by
  simp only [layout, List.mem_append]
  cases hp with
  | fixed hp =>
      rw [← spans_fixedPieces order (overridden s h)]
      exact .inl (.inl (List.mem_map_of_mem hp))
  | @coordinate c p hp =>
      obtain ⟨b, hb, rfl⟩ := Except.map_eq_ok_iff.mp hp
      rw [CoordinateFormat.length_of_encode hb]
      exact .inl (.inr (List.mem_map_of_mem c.mem_all))
  | line hp =>
      simp only [linePieces, List.mem_cons, List.not_mem_nil, or_false] at hp
      rcases hp with rfl | rfl <;> simp

/-- What was written is made of such pieces. -/
theorem exists_pieces_of_toBytes {b : Bytes} (hb : h.toBytes order s = .ok b) :
    ∃ pieces, (∀ p ∈ pieces, IsPiece order s h p) ∧
      b = assemble HeaderKind.trace.length pieces := by
  obtain ⟨coordinates, hc, rfl⟩ := toBytes_eq_ok_iff.mp hb
  refine ⟨_, fun p hp => ?_, rfl⟩
  simp only [List.mem_append] at hp
  rcases hp with (hp | hp) | hp
  · exact .fixed hp
  · exact hc.forall_right (P := IsPiece order s h) (fun hp => .coordinate hp) p hp
  · exact .line hp

theorem error_of_toBytes {e : ConversionError} (he : h.toBytes order s = .error e) :
    ∃ c, s.coordinateFormat.encode order (h.coordinate c) = .error e := by
  rcases Except.bind_eq_error_iff.mp he with hmap | ⟨pieces, -, he⟩
  · obtain ⟨c, -, hc⟩ := Except.exists_error_of_mapM hmap
    exact ⟨c, Except.map_eq_error_iff.mp hc⟩
  · cases he

/-! ### What is read -/

/-- The bytes that a header is read from, as a file of their own. -/
theorem slice_toArray {b : Bytes} (hb : b.length = HeaderKind.trace.length) :
    Image.slice b.toArray 0 HeaderKind.trace.length = b := by
  rw [Image.slice_eq, Bytes.slice, List.drop_zero, ← hb, List.take_length]

/-- The bytes of a header are read as a file that holds nothing else. -/
theorem value_reading_bytes (hs : ∀ g, s.byte g ≤ GeometryField.lastByte) {b : Bytes}
    (hb : b.length = HeaderKind.trace.length) (position : Int) :
    (reading b.toArray 0 order s position).value = ofBytes order s position b := by
  rw [value_reading hs, slice_toArray hb]

theorem error_of_decode {position : Int} {b : Bytes} {e : Error}
    (hb : b.length = HeaderKind.trace.length) (he : decode order s position b = .error e) :
    ∃ c source value, readCoordinate order s b c = .error (.unrepresentable source value .int32) ∧
      e = .conversion (.unrepresentable source value .int32) := by
  rw [decode, if_pos hb, Except.mapError_eq_error_iff] at he
  obtain ⟨e, he, rfl⟩ := he
  obtain ⟨c, hread⟩ := exists_error_of_ofBytes he
  obtain ⟨source, value, rfl⟩ := CoordinateFormat.error_of_decode hread
  exact ⟨c, source, value, hread, rfl⟩

/-! ### The codec under any settings -/

/-- The codec stays inside the 240 bytes of a header, and fails only for the value of a
coordinate. -/
structure Contained (order : ByteOrder) (s : Settings) : Prop where
  /-- Coordinates have a format that there is a codec for. -/
  format : CoordinateFormat.ofSampleFormat? s.coordinateFormat.sampleFormat =
    some s.coordinateFormat
  /-- Ordinals are divided by a positive number, if they are. -/
  divisor : ∀ dim, s.dimX = some dim → 0 < dim
  /-- All bytes that are read are bytes of the header. -/
  reads : ∀ b : Bytes, b.length = 240 → ∀ position : Int,
    (reading b.toArray 0 order s position).value = ofBytes order s position b ∧
      (reading b.toArray 0 order s position).Within 240
  /-- Nothing else is read: with other bytes elsewhere the header is the same. -/
  depends : ∀ b b' : Bytes, b.length = 240 → b'.length = 240 → ∀ position : Int,
    Image.AgreesOn b.toArray b'.toArray (reading b.toArray 0 order s position).ranges →
      ofBytes order s position b' = ofBytes order s position b
  /-- Reading fails only for a coordinate that no 32-bit integer is. -/
  decode_error : ∀ b : Bytes, b.length = 240 → ∀ (position : Int) (e : Error),
    decode order s position b = .error e → ∃ c source value,
      readCoordinate order s b c = .error (.unrepresentable source value .int32) ∧
        e = .conversion (.unrepresentable source value .int32)
  /-- All bytes that are written are bytes of the header. -/
  writes : ∀ (h : TraceHeader) (p : Nat × Bytes), IsPiece order s h p → p.1 + p.2.length ≤ 240
  /-- What was written are zeros and these bytes. -/
  written : ∀ (h : TraceHeader) (b : Bytes), h.toBytes order s = .ok b → b.length = 240 ∧
    ∃ pieces, (∀ p ∈ pieces, IsPiece order s h p) ∧ b = assemble 240 pieces
  /-- Writing fails only for hexadecimal floats and for a coordinate that no unsigned integer is. -/
  encode_error : ∀ (h : TraceHeader) (e : ConversionError), h.toBytes order s = .error e →
    e = .ibmUnwritable ∨ ∃ value, e = .unrepresentable .int32 value .uint32

theorem contained_of_valid (order : ByteOrder) {s : Settings} (hs : s.Valid) :
    Contained order s where
  format := CoordinateFormat.ofSampleFormat?_eq_some_iff.mpr rfl
  divisor := hs.dimX_pos
  reads b hb position := by
    have hsize : b.toArray.size = 240 := hb
    exact ⟨value_reading_bytes hs.byte_le hb position,
      hsize ▸ within_reading hs.byte_le (by rw [hsize]; decide) order position⟩
  depends b b' hb hb' position hagree := by
    obtain ⟨-, hvalue⟩ := follows_reading b.toArray b'.toArray 0 order s position hagree
    rw [value_reading_bytes hs.byte_le hb, value_reading_bytes hs.byte_le hb'] at hvalue
    exact hvalue.symm
  decode_error b hb position e he := error_of_decode hb he
  writes h p hp := layout_fits hs.byte_le _ (span_of_isPiece hp)
  written h b hb := ⟨length_of_toBytes hs.byte_le hb, exists_pieces_of_toBytes hb⟩
  encode_error h e he := by
    obtain ⟨c, hc⟩ := error_of_toBytes he
    rcases CoordinateFormat.error_of_encode hc with ⟨-, he⟩ | ⟨-, he⟩
    · exact .inl he
    · exact .inr he

end TraceHeader

namespace Settings

/-- **All settings that can be made are safe.**  Whatever calls are made, also if some are refused:
the geometry fields fit into a trace header, coordinates have one of the four formats, dimensions
that are set are positive, no more samples are imposed than a trace can have, bounds that are set
are in order, every step goes forward, and the limit of a scan is a 64-bit number.

So the codec of trace headers stays inside the 240 bytes, never divides by zero, always has a
format to use, and fails only for the value of a coordinate. -/
theorem contained_ofCalls (calls : List Setting) :
    let s := ofCalls calls
    (∀ g, s.byte g ≤ 236) ∧
      s.coordinateFormat.sampleFormat ∈ [.ibmFloat, .ieeeFloat, .int32, .uint32] ∧
      (∀ d n, s.dimension d = some n → 1 ≤ n) ∧ (∀ n, s.dimZ = some n → n ≤ 65535) ∧
      (∀ axis b, s.bounds axis = some b → b.lowest ≤ b.highest) ∧
      1 ≤ s.step ∧ s.maxTraceCount < UInt64.size ∧
      ∀ order, TraceHeader.Contained order s := by
  intro s
  have hs : s.Sound := sound_ofCalls calls
  have hformat : s.coordinateFormat.sampleFormat ∈
      [SampleFormat.ibmFloat, .ieeeFloat, .int32, .uint32] := by
    cases s.coordinateFormat <;> decide
  exact ⟨hs.byte_le, hformat, fun d n hn => (hs.dimension_bounds d n hn).1, hs.dimZ_le,
    hs.bounds_le, hs.step_pos, hs.maxTraceCount_lt,
    fun order => TraceHeader.contained_of_valid order hs.toValid⟩

/-- Of six calls four are refused, and leave the bounds that the fourth has set. -/
theorem contained_ofCalls_refusals :
    let s := ofCalls [.byte .inline 237, .byte .inline 236, .dimension .x 0, .dimension .x 5,
      .dimension .z 65536, .bounds .crossline 3 1]
    s.byte .inline = 236 ∧ s.dimension .x = some 5 ∧ s.dimension .z = none ∧
      s.bounds .crossline = some ⟨0, 4⟩ ∧ TraceHeader.Contained .big s :=
  ⟨by decide, by decide, by decide, by decide, (contained_ofCalls _).2.2.2.2.2.2.2 .big⟩

end Settings

end SegY
