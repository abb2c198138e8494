import Mathlib.Data.List.Nodup
import SegY.Proofs.FieldCodec
import SegY.Proofs.TraceCodec

/-!
# The trace header — read and written again

With default settings the parts of a trace header leave no byte of it out (`covering_layout`), and
each part that was read is written as it was.  So 240 bytes that were read are written as they were,
but that unknown codes become zeros (`cleared`).

* `toBytes_ofBytes`: what is written of a header that was read.
* `bijection`: with default settings, reading and writing trace headers undo each other except for
  codes that a vocabulary does not have.
-/

namespace SegY.TraceHeader
open Bytes (slice Covering Disjoint overwriteAll)

theorem covering_layout : Covering HeaderKind.trace.length (layout {}) :=
  disjoint_layout_default.covering (by decide)

/-! ### What is read -/

/-- With coordinates as integers and no imposed geometry, any bytes are a header, whose parts are
read one by one. -/
theorem ofBytes_of_int32 {s : Settings} (hformat : s.coordinateFormat = .int32)
    (hdim : s.dimX = none) (order : ByteOrder) (position : Int) (b : Bytes) :
    ofBytes order s position b = .ok {
      field := readField order s b
      coordinate := fun c => Int32.ofNat (order.load (slice b (c.start s) 4))
      inline := readLine order s b .inline
      crossline := readLine order s b .crossline
      name := readName order b } := by
  have hread : ∀ c, readCoordinate order s b c =
      .ok (Int32.ofNat (order.load (slice b (c.start s) 4))) := fun c => by
    rw [readCoordinate, hformat]
    rfl
  have hlines : readLines order s position b =
      (readLine order s b .inline, readLine order s b .crossline) := by
    rw [readLines, hdim]
  rw [ofBytes_of_coordinates hread, hlines]

/-- With default settings every 240 bytes are a header, whose parts are read one by one. -/
theorem exists_ofBytes (order : ByteOrder) (position : Int) (b : Bytes) :
    ∃ k, ofBytes order {} position b = .ok k ∧
      (∀ f : TraceField, k.field f = f.kind.decode order (slice b f.start f.kind.width)) ∧
      (∀ c, k.coordinate c = Int32.ofNat (order.load (slice b (c.start {}) 4))) ∧
      k.inline = readLine order {} b .inline ∧ k.crossline = readLine order {} b .crossline ∧
      k.name = readName order b :=
  ⟨_, ofBytes_of_int32 rfl rfl order position b, fun f => by cases f <;> rfl, fun _ => rfl, rfl,
    rfl, rfl⟩

/-- With default settings every header can be written. -/
theorem exists_toBytes (order : ByteOrder) (h : TraceHeader) : ∃ b, h.toBytes order {} = .ok b :=
  ⟨_, toBytes_eq_ok_iff.mpr ⟨Coordinate.all.map fun c =>
    (c.start {}, order.store 4 (h.coordinate c).toBitVec.toNat),
    List.forall₂_map_right_iff.mpr (List.forall₂_same.mpr fun _ _ => rfl), rfl⟩⟩

/-! ### Unknown codes -/

/-- Whether a field of a stored header is a code that its vocabulary does not have. -/
def isUnknown (order : ByteOrder) (b : Bytes) (f : TraceField) : Bool :=
  f.kind.isUnknown order (slice b f.start f.kind.width)

/-- The fields with such codes, as zeros at their positions. -/
def unknownPieces (order : ByteOrder) (b : Bytes) : List (Nat × Bytes) :=
  (TraceField.all.filter (isUnknown order b)).map fun f => (f.start, [0, 0])

/-- A stored header with zeros in place of all unknown codes. -/
def cleared (order : ByteOrder) (b : Bytes) : Bytes := overwriteAll b (unknownPieces order b)

theorem start_injective : Function.Injective TraceField.start := fun f g h =>
  List.inj_on_of_nodup_map (show (TraceField.all.map TraceField.start).Nodup by decide)
    f.mem_all g.mem_all h

theorem mem_layout_field (f : TraceField) : (f.start, f.kind.width) ∈ layout {} := by
  simp only [layout, fixedLayout, List.mem_append, List.mem_map]
  exact .inl (.inl (.inl ⟨f, f.mem_all, rfl⟩))

/-- A name that was read is written as it was. -/
theorem arrange_readName {order : ByteOrder} {b : Bytes}
    (hb : b.length = HeaderKind.trace.length) :
    order.arrange (readName order b).toList = slice b nameStart 8 := by
  have hlength : (order.arrange (slice b nameStart 8)).length = 8 := by
    rw [ByteOrder.length_arrange]
    have hr : (nameStart, 8) ∈ layout {} := by simp [layout, fixedLayout]
    exact disjoint_layout_default.length_slice hb hr
  have hname : (readName order b).toList = order.arrange (slice b nameStart 8) := by
    apply List.ext_getElem
    · rw [Vector.length_toList, hlength]
    · intro i hi hi'
      simp [readName, List.getD_eq_getElem?_getD, List.getElem?_eq_getElem hi']
  rw [hname, ByteOrder.arrange_arrange]

section Cleared

variable {order : ByteOrder} {b : Bytes} (hb : b.length = HeaderKind.trace.length)

theorem width_of_isUnknown {f : TraceField} (hf : isUnknown order b f = true) : f.kind.width = 2 :=
  (FieldKind.encode_decode_of_unknown hf).1

theorem mem_unknownPieces_iff {p : Nat × Bytes} :
    p ∈ unknownPieces order b ↔ ∃ f, isUnknown order b f = true ∧ p = (f.start, [0, 0]) := by
  simp only [unknownPieces, List.mem_map, List.mem_filter, TraceField.mem_all, true_and]
  exact exists_congr fun f => and_congr_right fun _ => eq_comm

theorem spans_unknownPieces : Bytes.spans (unknownPieces order b) =
    (TraceField.all.filter (isUnknown order b)).map fun f => (f.start, f.kind.width) := by
  rw [Bytes.spans, unknownPieces, List.map_map]
  refine List.map_congr_left fun f hf => ?_
  rw [width_of_isUnknown (List.mem_filter.mp hf).2]
  rfl

include hb

theorem disjoint_unknownPieces : Disjoint b.length (Bytes.spans (unknownPieces order b)) := by
  rw [spans_unknownPieces, hb]
  refine disjoint_layout_default.sublist ?_
  rw [layout, fixedLayout, List.append_assoc, List.append_assoc]
  exact (List.filter_sublist.map _).trans (List.sublist_append_left ..)

theorem length_cleared : (cleared order b).length = b.length :=
  Bytes.length_overwriteAll fun _ hp =>
    (disjoint_unknownPieces hb).1 _ (List.mem_map_of_mem hp)

theorem slice_cleared_of_unknown {f : TraceField} (hf : isUnknown order b f = true) :
    slice (cleared order b) f.start f.kind.width = [0, 0] := by
  rw [width_of_isUnknown hf]
  exact Bytes.slice_overwriteAll (disjoint_unknownPieces hb)
    (mem_unknownPieces_iff.mpr ⟨f, hf, rfl⟩)

/-- A part that is no unknown code is left as it is. -/
theorem slice_cleared_of_ne {r : Nat × Nat} (hr : r ∈ layout {})
    (hne : ∀ f, isUnknown order b f = true → r ≠ (f.start, f.kind.width)) :
    slice (cleared order b) r.1 r.2 = slice b r.1 r.2 := by
  have hd : Disjoint b.length (Bytes.spans (unknownPieces order b)) := disjoint_unknownPieces hb
  refine Bytes.slice_overwriteAll_of_apart (fun p hp => hd.1 _ (List.mem_map_of_mem hp))
    fun p hp => ?_
  obtain ⟨f, hf, rfl⟩ := mem_unknownPieces_iff.mp hp
  have happart :=
    (disjoint_layout_default.eq_or_apart hr (mem_layout_field f)).resolve_left (hne f hf)
  rwa [width_of_isUnknown hf] at happart

theorem slice_cleared_of_width {r : Nat × Nat} (hr : r ∈ layout {}) (hwidth : r.2 ≠ 2) :
    slice (cleared order b) r.1 r.2 = slice b r.1 r.2 :=
  slice_cleared_of_ne hb hr fun _ hf he => hwidth (he ▸ width_of_isUnknown hf)

/-- A field that was read and is written again. -/
theorem encode_decode_field (f : TraceField) :
    f.kind.encode order (f.kind.decode order (slice b f.start f.kind.width)) =
      slice (cleared order b) f.start f.kind.width := by
  have hr := mem_layout_field f
  have hlength : (slice b f.start f.kind.width).length = f.kind.width :=
    disjoint_layout_default.length_slice hb hr
  cases hf : isUnknown order b f with
  | true => rw [slice_cleared_of_unknown hb hf, (FieldKind.encode_decode_of_unknown hf).2]
  | false =>
    rw [FieldKind.encode_decode_of_known hlength hf]
    refine (slice_cleared_of_ne hb hr fun g hg he => ?_).symm
    rw [start_injective (congrArg Prod.fst he), hg] at hf
    cases hf

end Cleared

/-! ### What is written again -/

/-- **A header that was read is written as it was**, with zeros in place of unknown codes. -/
theorem toBytes_ofBytes {order : ByteOrder} {position : Int} {b : Bytes}
    (hb : b.length = HeaderKind.trace.length) {k : TraceHeader}
    (hk : ofBytes order {} position b = .ok k) : k.toBytes order {} = .ok (cleared order b) := by
  obtain ⟨k', hk', hfield, hcoordinate, hinline, hcrossline, hname⟩ :=
    exists_ofBytes order position b
  cases hk.symm.trans hk'
  obtain ⟨written, hwritten⟩ := exists_toBytes order k
  have hd := disjoint_layout_default
  have hlength : written.length = HeaderKind.trace.length :=
    length_of_toBytes_standard hwritten rfl
  rw [hwritten]
  refine congrArg Except.ok (Bytes.ext_of_covering covering_layout hlength
    ((length_cleared hb).trans hb) fun r hr => ?_)
  -- one case for each kind of part of the layout
  have hparts := hr
  simp only [layout, fixedLayout, List.mem_append, List.mem_map, List.mem_cons, List.not_mem_nil,
    or_false] at hparts
  rcases hparts with ((⟨f, -, rfl⟩ | rfl) | ⟨c, -, rfl⟩) | rfl | rfl
  · rw [slice_field hd hwritten, ← encode_decode_field hb f, ← hfield f]
    rfl
  · rw [slice_cleared_of_width hb hr (by decide), slice_name hd hwritten, hname,
      arrange_readName hb]
  · have hc := slice_coordinate hd hwritten c
    change Except.ok (order.store 4 (k.coordinate c).toBitVec.toNat) = _ at hc
    rw [slice_cleared_of_width hb hr (by simp), ← Except.ok.inj hc, hcoordinate]
    exact FieldKind.store_int32 (disjoint_layout_default.length_slice hb hr)
  · rw [slice_cleared_of_width hb hr (by decide), slice_inline hd hwritten, hinline]
    exact FieldKind.store_int32 (disjoint_layout_default.length_slice hb hr)
  · rw [slice_cleared_of_width hb hr (by decide), slice_crossline hd hwritten, hcrossline]
    exact FieldKind.store_int32 (disjoint_layout_default.length_slice hb hr)

/-- Where all codes are known there is nothing to clear. -/
theorem cleared_of_known {order : ByteOrder} {b : Bytes}
    (h : ∀ f, isUnknown order b f = false) : cleared order b = b := by
  have hnone : TraceField.all.filter (isUnknown order b) = [] :=
    List.filter_eq_nil_iff.mpr fun f _ => by simp [h f]
  rw [cleared, unknownPieces, hnone]
  rfl

/-- A header that was written has no unknown codes. -/
theorem isUnknown_of_toBytes {order : ByteOrder} {h : TraceHeader} {b : Bytes}
    (hb : h.toBytes order {} = .ok b) (f : TraceField) : isUnknown order b f = false := by
  rw [isUnknown, slice_field disjoint_layout_default hb]
  exact FieldKind.isUnknown_encode ..

/-- **The codec is a bijection up to unknown codes.**  With default settings, in both byte orders
and at any position of a file: a header that was written is read back, but that an invalid code
says nothing; and 240 bytes that were read are written again, with zeros in place of codes that
their vocabularies do not have.  So if all codes are known, then every byte is the same. -/
theorem bijection (order : ByteOrder) (position : Int) :
    (∀ h : TraceHeader, ∃ b, h.toBytes order {} = .ok b ∧
      decode order {} position b = .ok h.settled) ∧
    ∀ b : Bytes, b.length = HeaderKind.trace.length →
      (∃ k, decode order {} position b = .ok k ∧ k.toBytes order {} = .ok (cleared order b)) ∧
      ((∀ f, isUnknown order b f = false) →
        ∃ k, decode order {} position b = .ok k ∧ k.toBytes order {} = .ok b) := by
  have hdecode : ∀ {b k}, b.length = HeaderKind.trace.length →
      ofBytes order {} position b = .ok k → decode order {} position b = .ok k :=
    fun hb hk => by rw [decode, if_pos hb, hk, Except.mapError_ok]
  constructor
  · intro h
    obtain ⟨b, hb⟩ := exists_toBytes order h
    have hlength := length_of_toBytes_standard hb rfl
    exact ⟨b, hb, hdecode hlength (ofBytes_toBytes hb position)⟩
  · intro b hb
    obtain ⟨k, hk, -⟩ := exists_ofBytes order position b
    have hwritten := toBytes_ofBytes hb hk
    refine ⟨⟨k, hdecode hb hk, hwritten⟩, fun hknown => ⟨k, hdecode hb hk, ?_⟩⟩
    rwa [cleared_of_known hknown] at hwritten

/-- Of ascending bytes the trace kind and other codes are cleared, and of a name among zeros
nothing is. -/
theorem bijection_ascending :
    let ascending : Bytes := (List.range 240).map UInt8.ofNat
    let named : Bytes := List.replicate 232 0 ++ [1, 2, 3, 4, 5, 6, 7, 8]
    (∃ k, decode .big {} 0 ascending = .ok k ∧
      k.toBytes .big {} = .ok (cleared .big ascending)) ∧
    slice (cleared .big ascending) 28 4 = [0, 0, 30, 31] ∧
    ∃ k, decode .big {} 0 named = .ok k ∧ k.toBytes .big {} = .ok named := by
  intro ascending named
  have hknown : ∀ f ∈ TraceField.all, isUnknown .big named f = false := by decide +kernel
  have hnamed := ((bijection .big 0).2 named (by decide +kernel)).2 fun f => hknown f f.mem_all
  exact ⟨((bijection .big 0).2 ascending (by decide +kernel)).1, by decide +kernel, hnamed⟩

end SegY.TraceHeader
