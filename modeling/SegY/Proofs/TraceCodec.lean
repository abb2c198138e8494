import SegY.Proofs.Layout
import SegY.Proofs.Results
import SegY.TraceHeader

/-!
# The trace header — written and read back

The parts of a header cover ranges that only the settings decide (`TraceHeader.layout`), not what
the header holds.  Where these ranges do not meet, every part of a written header is found in its
bytes (`slice_field`, `slice_coordinate`, `slice_line`, `slice_name`).

* `length_of_toBytes`: a written header has 240 bytes wherever settings put the geometry fields,
  as long as these fit into a header at all.
* `readCoordinate_of_ofBytes`, `exists_error_of_ofBytes`, `exists_ofBytes_iff`: a header is read as
  soon as its coordinates are, and fails as one of them does.
* `ofBytes_of_readCoordinate`: a written header is read back as soon as its coordinates are.
* `ofBytes_toBytes`: with default settings a written header is read back as it was, except that an
  invalid code says nothing (`settled`).  The position in the file does not matter.
-/

namespace SegY

theorem CoordinateFormat.length_of_encode {f : CoordinateFormat} {order : ByteOrder} {n : Int32}
    {b : Bytes} (h : f.encode order n = .ok b) : b.length = 4 := by
  cases f with
  | ibmFloat => cases h
  | int32 => cases h; exact ByteOrder.length_store ..
  | ieeeFloat | uint32 =>
      simp only [encode, Except.map_eq_ok_iff] at h
      obtain ⟨w, -, rfl⟩ := h
      exact SampleType.length_store ..

namespace TraceHeader
open Bytes (slice spans Apart Disjoint assemble pairwise_apart_of_isChain)

theorem set_field_self (h : TraceHeader) (f : TraceField) (x : f.Value) :
    (h.set f x).field f = x := by
  simp only [set, dif_pos]

theorem set_field_of_ne (h : TraceHeader) {f g : TraceField} (hne : f ≠ g) (x : f.Value) :
    (h.set f x).field g = h.field g := by
  simp only [set, dif_neg hne]

/-- What is left of a header once it was written: an invalid code says nothing. -/
def settled (h : TraceHeader) : TraceHeader :=
  { h with field := fun f => f.kind.settled (h.field f) }

/-! ### The ranges of the parts -/

/-- The ranges of the parts that no settings move. -/
def fixedLayout : List (Nat × Nat) :=
  TraceField.all.map (fun f => (f.start, f.kind.width)) ++ [(nameStart, 8)]

/-- The ranges of all parts, in the order in which they are written. -/
def layout (s : Settings) : List (Nat × Nat) :=
  fixedLayout ++ Coordinate.all.map (fun c => (c.start s, 4)) ++
    [(s.byte .inline, 4), (s.byte .crossline, 4)]

set_option maxRecDepth 1000 in
theorem isChain_fixedLayout : fixedLayout.IsChain fun s t => s.1 + s.2 ≤ t.1 := by
  decide

/-- The parts that no settings move leave three gaps. -/
theorem apart_gaps :
    ∀ r ∈ fixedLayout, Apart r (36, 32) ∧ Apart r (72, 16) ∧ Apart r (180, 16) := by
  decide

theorem disjoint_layout_default : Disjoint HeaderKind.trace.length (layout {}) := by
  refine ⟨by decide, ?_⟩
  rw [layout, List.append_assoc, List.pairwise_append]
  refine ⟨pairwise_apart_of_isChain isChain_fixedLayout, by decide, fun r hr t ht => ?_⟩
  have hgap : 36 ≤ t.1 ∧ t.1 + t.2 ≤ 36 + 32 ∨ 72 ≤ t.1 ∧ t.1 + t.2 ≤ 72 + 16 ∨
      180 ≤ t.1 ∧ t.1 + t.2 ≤ 180 + 16 := by
    revert t
    decide
  have hfixed := apart_gaps r hr
  simp only [Apart] at hfixed ⊢
  omega

theorem fixedLayout_fits : ∀ r ∈ fixedLayout, r.1 + r.2 ≤ HeaderKind.trace.length := by
  decide

theorem coordinate_start_le {s : Settings} (hs : ∀ g, s.byte g ≤ GeometryField.lastByte)
    (c : Coordinate) :
    c.start s ≤ GeometryField.lastByte := by
  cases c with
  | cdpX => exact hs .cdpX
  | cdpY => exact hs .cdpY
  | _ => simp [Coordinate.start, GeometryField.lastByte]

/-- All parts lie inside the header if the geometry fields do. -/
theorem layout_fits {s : Settings} (hs : ∀ g, s.byte g ≤ GeometryField.lastByte) :
    ∀ r ∈ layout s, r.1 + r.2 ≤ HeaderKind.trace.length := by
  have four : ∀ n ≤ GeometryField.lastByte, n + 4 ≤ HeaderKind.trace.length := fun n hn => by
    simp only [GeometryField.lastByte, HeaderKind.length] at hn ⊢
    omega
  intro r hr
  simp only [layout, List.mem_append, List.mem_map, List.mem_cons, List.not_mem_nil, or_false] at hr
  rcases hr with (hr | ⟨c, -, rfl⟩) | rfl | rfl
  · exact fixedLayout_fits r hr
  · exact four _ (coordinate_start_le hs c)
  · exact four _ (hs _)
  · exact four _ (hs _)

theorem spans_fixedPieces (order : ByteOrder) (h : TraceHeader) :
    spans (fixedPieces order h) = fixedLayout := by
  simp [spans, fixedPieces, fixedLayout, Function.comp_def]

/-- A written header, taken apart: the coordinates could be encoded, and the rest always can. -/
theorem toBytes_eq_ok_iff {order : ByteOrder} {s : Settings} {h : TraceHeader} {b : Bytes} :
    h.toBytes order s = .ok b ↔ ∃ coordinates,
      List.Forall₂ (fun c p => coordinatePiece order s h c = .ok p) Coordinate.all coordinates ∧
      assemble HeaderKind.trace.length
        (fixedPieces order (overridden s h) ++ coordinates ++ linePieces order s h) = b := by
  rw [toBytes, Except.bind_eq_ok_iff]
  simp only [Except.mapM_eq_ok_iff, pure, Except.pure, Except.ok.injEq]

theorem spans_pieces {order : ByteOrder} {s : Settings} {h k : TraceHeader}
    {coordinates : List (Nat × Bytes)}
    (hc : List.Forall₂ (fun c p => coordinatePiece order s h c = .ok p)
      Coordinate.all coordinates) :
    spans (fixedPieces order k ++ coordinates ++ linePieces order s h) = layout s := by
  have hspans : ∀ {cs ps}, List.Forall₂ (fun c p => coordinatePiece order s h c = .ok p) cs ps →
      spans ps = cs.map fun c => (c.start s, 4) := fun hps => by
    induction hps with
    | nil => rfl
    | cons hp _ ih =>
        obtain ⟨piece, hpiece, rfl⟩ := Except.map_eq_ok_iff.mp hp
        rw [List.map_cons, ← ih, ← CoordinateFormat.length_of_encode hpiece]
        rfl
  have hlines : spans (linePieces order s h) = [(s.byte .inline, 4), (s.byte .crossline, 4)] := by
    simp [spans, linePieces]
  rw [layout, ← hspans hc, ← hlines, ← spans_fixedPieces order k]
  simp only [spans, List.map_append]

/-- A written header has 240 bytes. -/
theorem length_of_toBytes {order : ByteOrder} {s : Settings} {h : TraceHeader} {b : Bytes}
    (hs : ∀ g, s.byte g ≤ GeometryField.lastByte) (hb : h.toBytes order s = .ok b) :
    b.length = HeaderKind.trace.length := by
  obtain ⟨coordinates, hc, rfl⟩ := toBytes_eq_ok_iff.mp hb
  refine Bytes.length_assemble fun p hp => ?_
  have hr : (p.1, p.2.length) ∈ layout s :=
    spans_pieces (k := overridden s h) hc ▸ List.mem_map_of_mem hp
  exact layout_fits hs _ hr

/-- With all geometry fields at their standard positions it has. -/
theorem length_of_toBytes_standard {order : ByteOrder} {s : Settings} {h : TraceHeader} {b : Bytes}
    (hb : h.toBytes order s = .ok b) (hs : s.byte = GeometryField.standardByte) :
    b.length = HeaderKind.trace.length :=
  length_of_toBytes (fun g => hs ▸ by cases g <;> decide) hb

/-! ### The parts of a written header -/

section Parts

variable {order : ByteOrder} {s : Settings} {h : TraceHeader} {b : Bytes}

/-- In a layout of ranges that do not meet, every part is found where it was put. -/
theorem slice_part (hd : Disjoint HeaderKind.trace.length (layout s))
    {coordinates : List (Nat × Bytes)}
    (hc : List.Forall₂ (fun c p => coordinatePiece order s h c = .ok p) Coordinate.all coordinates)
    {p : Nat × Bytes}
    (hp : p ∈ fixedPieces order (overridden s h) ++ coordinates ++ linePieces order s h) :
    slice (assemble HeaderKind.trace.length
      (fixedPieces order (overridden s h) ++ coordinates ++ linePieces order s h))
        p.1 p.2.length = p.2 :=
  Bytes.slice_assemble (spans_pieces (k := overridden s h) hc ▸ hd) hp

variable (hd : Disjoint HeaderKind.trace.length (layout s)) (hb : h.toBytes order s = .ok b)
include hd hb

theorem slice_field (f : TraceField) :
    slice b f.start f.kind.width = f.kind.encode order ((overridden s h).field f) := by
  obtain ⟨coordinates, hc, rfl⟩ := toBytes_eq_ok_iff.mp hb
  have hp : (f.start, f.kind.encode order ((overridden s h).field f)) ∈
      fixedPieces order (overridden s h) := by
    simp only [fixedPieces, List.mem_append, List.mem_map]
    exact .inl ⟨f, f.mem_all, rfl⟩
  have hf := slice_part hd hc (List.mem_append_left _ (List.mem_append_left _ hp))
  rwa [FieldKind.length_encode] at hf

theorem slice_name : slice b nameStart 8 = order.arrange h.name.toList := by
  obtain ⟨coordinates, hc, rfl⟩ := toBytes_eq_ok_iff.mp hb
  have hk : (overridden s h).name = h.name := by
    unfold overridden
    split <;> rfl
  have hp : (nameStart, order.arrange h.name.toList) ∈ fixedPieces order (overridden s h) := by
    simp [fixedPieces, hk]
  have hn := slice_part hd hc (List.mem_append_left _ (List.mem_append_left _ hp))
  simpa using hn

theorem slice_coordinate (c : Coordinate) :
    s.coordinateFormat.encode order (h.coordinate c) = .ok (slice b (c.start s) 4) := by
  obtain ⟨coordinates, hc, rfl⟩ := toBytes_eq_ok_iff.mp hb
  obtain ⟨i, hi, hci⟩ := List.mem_iff_getElem.mp c.mem_all
  have hi' : i < coordinates.length := hc.length_eq ▸ hi
  have hpiece := hc.get hi hi'
  simp only [List.get_eq_getElem, hci] at hpiece
  obtain ⟨piece, hp, he⟩ := Except.map_eq_ok_iff.mp hpiece
  have hm : (c.start s, piece) ∈ coordinates := he ▸ List.getElem_mem hi'
  have hs := slice_part hd hc (List.mem_append_left _ (List.mem_append_right _ hm))
  rw [CoordinateFormat.length_of_encode hp] at hs
  rw [hp, hs]

theorem slice_inline : slice b (s.byte .inline) 4 = order.store 4 h.inline.toBitVec.toNat := by
  obtain ⟨coordinates, hc, rfl⟩ := toBytes_eq_ok_iff.mp hb
  have hl := slice_part hd hc (p := (s.byte .inline, order.store 4 h.inline.toBitVec.toNat))
    (List.mem_append_right _ (by simp [linePieces]))
  rwa [ByteOrder.length_store] at hl

theorem slice_crossline :
    slice b (s.byte .crossline) 4 = order.store 4 h.crossline.toBitVec.toNat := by
  obtain ⟨coordinates, hc, rfl⟩ := toBytes_eq_ok_iff.mp hb
  have hl := slice_part hd hc (p := (s.byte .crossline, order.store 4 h.crossline.toBitVec.toNat))
    (List.mem_append_right _ (by simp [linePieces]))
  rwa [ByteOrder.length_store] at hl

end Parts

/-! ### Reading -/

section Read

variable {order : ByteOrder} {s : Settings} {position : Int} {b : Bytes}

theorem coordinateError?_eq_some_iff {c : Coordinate} {e : ConversionError} :
    coordinateError? order s b c = some e ↔ readCoordinate order s b c = .error e := by
  rw [coordinateError?]
  cases readCoordinate order s b c <;> simp

theorem coordinateError?_eq_none_iff {c : Coordinate} :
    coordinateError? order s b c = none ↔ ∃ n, readCoordinate order s b c = .ok n := by
  rw [coordinateError?]
  cases readCoordinate order s b c <;> simp

/-- A header is read as soon as its coordinates are. -/
theorem ofBytes_of_coordinates {read : Coordinate → Int32}
    (hread : ∀ c, readCoordinate order s b c = .ok (read c)) (position : Int) :
    ofBytes order s position b = .ok {
      field := readField order s b
      coordinate := read
      inline := (readLines order s position b).1
      crossline := (readLines order s position b).2
      name := readName order b } := by
  have hnone : Coordinate.all.findSome? (coordinateError? order s b) = none :=
    List.findSome?_eq_none_iff.mpr fun c _ => coordinateError?_eq_none_iff.mpr ⟨_, hread c⟩
  simp only [ofBytes, hnone, hread]
  rfl

/-- A header that was read has the coordinates that were read. -/
theorem readCoordinate_of_ofBytes {h : TraceHeader} (hh : ofBytes order s position b = .ok h)
    (c : Coordinate) : readCoordinate order s b c = .ok (h.coordinate c) := by
  rw [ofBytes] at hh
  split at hh
  · cases hh
  · next hnone =>
    obtain ⟨n, hn⟩ := coordinateError?_eq_none_iff.mp
      (List.findSome?_eq_none_iff.mp hnone c c.mem_all)
    cases hh
    simp only [hn, Except.toOption, Option.getD_some]

/-- A header fails as one of its coordinates does. -/
theorem exists_error_of_ofBytes {e : ConversionError} (he : ofBytes order s position b = .error e) :
    ∃ c, readCoordinate order s b c = .error e := by
  rw [ofBytes] at he
  split at he
  · next e' hfirst =>
    cases he
    obtain ⟨c, -, hc⟩ := List.exists_of_findSome?_eq_some hfirst
    exact ⟨c, coordinateError?_eq_some_iff.mp hc⟩
  · cases he

/-- A header is read exactly if each of its coordinates is. -/
theorem exists_ofBytes_iff : (∃ h, ofBytes order s position b = .ok h) ↔
    ∀ c, ∃ n, readCoordinate order s b c = .ok n := by
  constructor
  · rintro ⟨h, hh⟩ c
    exact ⟨_, readCoordinate_of_ofBytes hh c⟩
  · intro h
    choose read hread using h
    exact ⟨_, ofBytes_of_coordinates hread position⟩

end Read

/-! ### Reading back -/

theorem readName_of_slice {order : ByteOrder} {b : Bytes} {name : TraceName}
    (h : slice b nameStart 8 = order.arrange name.toList) : readName order b = name := by
  rw [readName, h, ByteOrder.arrange_arrange]
  apply Vector.ext
  intro i hi
  simp [List.getD_eq_getElem?_getD]

/-- Where settings override nothing and impose no geometry, a written header is read back as soon
as its coordinates are. -/
theorem ofBytes_of_readCoordinate {order : ByteOrder} {s : Settings} {h : TraceHeader} {b : Bytes}
    (hd : Disjoint HeaderKind.trace.length (layout s)) (hfree : ∀ f, override s f = none)
    (hdim : s.dimX = none) (hb : h.toBytes order s = .ok b) {read : Coordinate → Int32}
    (hread : ∀ c, readCoordinate order s b c = .ok (read c)) (position : Int) :
    ofBytes order s position b = .ok { h.settled with coordinate := read } := by
  have hsame : overridden s h = h := by
    have hscaling : s.coordinateScaling = none := hfree .coordinateScalar
    rw [overridden, hscaling]
  have hfield : readField order s b = h.settled.field := by
    funext f
    rw [readField, hfree, Option.getD_none, slice_field hd hb, FieldKind.decode_encode, hsame]
    rfl
  have hlines : readLines order s position b = (h.inline, h.crossline) := by
    rw [readLines, hdim]
    show (Int32.ofNat (order.load _), Int32.ofNat (order.load _)) = _
    rw [slice_inline hd hb, slice_crossline hd hb, FieldKind.load_int32, FieldKind.load_int32]
  rw [ofBytes_of_coordinates hread, hlines, hfield, readName_of_slice (slice_name hd hb)]
  rfl

/-- **A written header is read back.**  With default settings, in both byte orders and at any
position of a file, what is read is what was written, except that an invalid code says nothing. -/
theorem ofBytes_toBytes {order : ByteOrder} {h : TraceHeader} {b : Bytes}
    (hb : h.toBytes order {} = .ok b) (position : Int) :
    ofBytes order {} position b = .ok h.settled := by
  have hd := disjoint_layout_default
  have hcoordinate : ∀ c, readCoordinate order {} b c = .ok (h.coordinate c) := fun c => by
    have hc := slice_coordinate hd hb c
    change Except.ok (order.store 4 (h.coordinate c).toBitVec.toNat) = _ at hc
    rw [readCoordinate, ← Except.ok.inj hc]
    exact congrArg Except.ok (FieldKind.load_int32 order _)
  exact ofBytes_of_readCoordinate hd (fun f => by cases f <;> rfl) rfl hb hcoordinate position

end TraceHeader

end SegY
