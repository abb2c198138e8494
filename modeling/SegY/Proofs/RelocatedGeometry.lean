import SegY.Proofs.ReachableSettings
import SegY.Proofs.TraceBijection

/-!
# The trace header — relocated geometry

The four geometry fields can lie anywhere in a trace header, over any other field.  They are
written last, so the rest of a header is where it always is but for the bytes under them.

* `movedPieces`, `unmovedPieces`: a header as what settings move, written over what they do not
  (`toBytes_of_int32`).
* `toBytes_withoutGeometry`: without its geometry the header in the standard layout is what
  settings do not move.
* `relocated_geometry`: wherever the fields are put, as long as they do not meet each other, they
  are read back, and nothing else is changed.
-/

namespace SegY

namespace Settings

/-- No two geometry fields meet. -/
def Separated (s : Settings) : Prop :=
  ∀ g g', g ≠ g' → Bytes.Apart (s.byte g, 4) (s.byte g', 4)

/-- No geometry field meets the range. -/
def Spares (s : Settings) (r : Nat × Nat) : Prop := ∀ g, Bytes.Apart r (s.byte g, 4)

end Settings

namespace TraceHeader
open Bytes (slice overwrite overwriteAll assemble spans Apart Disjoint)

/-- The header on inline and crossline zero, with its ensemble at the origin. -/
def withoutGeometry (h : TraceHeader) : TraceHeader :=
  { (h.setCoordinate .cdpX 0).setCoordinate .cdpY 0 with inline := 0, crossline := 0 }

/-! ### What settings move -/

/-- The geometry fields in the order in which they are written. -/
def moved : List GeometryField := [.cdpX, .cdpY, .inline, .crossline]

/-- The coordinates that are no geometry fields. -/
def unmoved : List Coordinate :=
  [.distance, .receiverElevation, .sourceElevation, .sourceDepth, .receiverDatum, .sourceDatum,
    .sourceWaterDepth, .groupWaterDepth, .sourceX, .sourceY, .groupX, .groupY]

theorem mem_moved (g : GeometryField) : g ∈ moved := by
  cases g <;> decide

/-- The geometry fields with the positions that settings give them. -/
def movedPieces (order : ByteOrder) (s : Settings) (h : TraceHeader) : List (Nat × Bytes) :=
  moved.map fun g => (s.byte g, order.store 4 (h.geometry g).toBitVec.toNat)

/-- All other parts with their positions. -/
def unmovedPieces (order : ByteOrder) (h : TraceHeader) : List (Nat × Bytes) :=
  fixedPieces order h ++
    unmoved.map fun c => (c.start {}, order.store 4 (h.coordinate c).toBitVec.toNat)

/-- The bytes of a header before the geometry fields are written. -/
def unmovedBytes (order : ByteOrder) (h : TraceHeader) : Bytes :=
  assemble HeaderKind.trace.length (unmovedPieces order h)

/-- The bytes of a header whose coordinates are integers: what settings move is written over what
they do not. -/
def relocatedBytes (order : ByteOrder) (s : Settings) (h : TraceHeader) : Bytes :=
  overwriteAll (unmovedBytes order (overridden s h)) (movedPieces order s h)

/-- The ranges of the parts that no settings move. -/
def unmovedLayout : List (Nat × Nat) := fixedLayout ++ unmoved.map fun c => (c.start {}, 4)

theorem layout_default : layout {} = unmovedLayout ++ moved.map fun g => (g.standardByte, 4) := rfl

theorem disjoint_unmovedLayout : Disjoint HeaderKind.trace.length unmovedLayout :=
  disjoint_layout_default.sublist (layout_default ▸ List.sublist_append_left ..)

/-- No other part is where the standard layout has the geometry fields. -/
theorem apart_of_mem_unmovedLayout {r : Nat × Nat} (hr : r ∈ unmovedLayout) (g : GeometryField) :
    Apart r (g.standardByte, 4) := by
  have hd := disjoint_layout_default.2
  rw [layout_default, List.pairwise_append] at hd
  exact hd.2.2 r hr _ (List.mem_map_of_mem (mem_moved g))

theorem spans_unmovedPieces (order : ByteOrder) (h : TraceHeader) :
    spans (unmovedPieces order h) = unmovedLayout := by
  rw [unmovedLayout, ← spans_fixedPieces order h]
  simp [spans, unmovedPieces, Function.comp_def]

theorem spans_movedPieces (order : ByteOrder) (s : Settings) (h : TraceHeader) :
    spans (movedPieces order s h) = moved.map fun g => (s.byte g, 4) := by
  simp [spans, movedPieces, Function.comp_def]

theorem length_unmovedBytes (order : ByteOrder) (h : TraceHeader) :
    (unmovedBytes order h).length = HeaderKind.trace.length :=
  Bytes.length_assemble fun p hp => disjoint_unmovedLayout.1 (p.1, p.2.length)
    (spans_unmovedPieces order h ▸ List.mem_map_of_mem hp)

theorem coordinate_overridden (s : Settings) (h : TraceHeader) :
    (overridden s h).coordinate = h.coordinate := by
  unfold overridden
  split <;> rfl

theorem name_overridden (s : Settings) (h : TraceHeader) : (overridden s h).name = h.name := by
  unfold overridden
  split <;> rfl

/-- With coordinates as integers every header can be written. -/
theorem toBytes_of_int32 (order : ByteOrder) {s : Settings} (hs : s.coordinateFormat = .int32)
    (h : TraceHeader) : h.toBytes order s = .ok (relocatedBytes order s h) := by
  refine toBytes_eq_ok_iff.mpr ⟨Coordinate.all.map fun c =>
    (c.start s, order.store 4 (h.coordinate c).toBitVec.toNat), ?_, ?_⟩
  · refine List.forall₂_map_right_iff.mpr (List.forall₂_same.mpr fun c _ => ?_)
    rw [coordinatePiece, hs]
    rfl
  · rw [relocatedBytes, unmovedBytes, Bytes.assemble_eq, Bytes.assemble_eq,
      ← Bytes.overwriteAll_append, unmovedPieces, coordinate_overridden]
    refine congrArg _ ?_
    rw [List.append_assoc, List.append_assoc]
    rfl

/-! ### The parts that settings do not move -/

section Unmoved

variable (order : ByteOrder) (h : TraceHeader)

theorem slice_unmovedBytes {p : Nat × Bytes} (hp : p ∈ unmovedPieces order h) :
    slice (unmovedBytes order h) p.1 p.2.length = p.2 :=
  Bytes.slice_assemble (spans_unmovedPieces order h ▸ disjoint_unmovedLayout) hp

theorem slice_unmovedBytes_field (f : TraceField) :
    slice (unmovedBytes order h) f.start f.kind.width = f.kind.encode order (h.field f) := by
  have hp : (f.start, f.kind.encode order (h.field f)) ∈ fixedPieces order h := by
    simp only [fixedPieces, List.mem_append, List.mem_map]
    exact .inl ⟨f, f.mem_all, rfl⟩
  have hf := slice_unmovedBytes order h (List.mem_append_left _ hp)
  rwa [FieldKind.length_encode] at hf

theorem slice_unmovedBytes_coordinate {c : Coordinate} (hc : c ∈ unmoved) :
    slice (unmovedBytes order h) (c.start {}) 4 =
      order.store 4 (h.coordinate c).toBitVec.toNat := by
  have hp : (c.start {}, order.store 4 (h.coordinate c).toBitVec.toNat) ∈ unmovedPieces order h :=
    List.mem_append_right _ (List.mem_map_of_mem hc)
  have hs := slice_unmovedBytes order h hp
  rwa [ByteOrder.length_store] at hs

theorem slice_unmovedBytes_name :
    slice (unmovedBytes order h) nameStart 8 = order.arrange h.name.toList := by
  have hp : (nameStart, order.arrange h.name.toList) ∈ unmovedPieces order h := by
    simp [unmovedPieces, fixedPieces]
  have hs := slice_unmovedBytes order h hp
  rwa [ByteOrder.length_arrange, Vector.length_toList] at hs

/-- Nothing is written where the standard layout has the geometry fields. -/
theorem slice_unmovedBytes_geometry (g : GeometryField) :
    slice (unmovedBytes order h) g.standardByte 4 = List.replicate 4 0 := by
  have hfits : g.standardByte + 4 ≤ HeaderKind.trace.length := by cases g <;> decide
  have hspan : ∀ p ∈ unmovedPieces order h, (p.1, p.2.length) ∈ unmovedLayout := fun p hp =>
    spans_unmovedPieces order h ▸ List.mem_map_of_mem hp
  rw [unmovedBytes, Bytes.assemble_eq, Bytes.slice_overwriteAll_of_apart]
  · rw [slice, List.drop_replicate, List.take_replicate, Nat.min_eq_left (by omega)]
  · intro p hp
    rw [List.length_replicate]
    exact disjoint_unmovedLayout.1 _ (hspan p hp)
  · intro p hp
    exact (apart_of_mem_unmovedLayout (hspan p hp) g).symm

end Unmoved

/-! ### The parts that settings move -/

section Moved

variable {s : Settings} (hs : ∀ g, s.byte g ≤ GeometryField.lastByte) (order : ByteOrder)
  (h : TraceHeader)
include hs

theorem movedPieces_fit : ∀ p ∈ movedPieces order s h,
    p.1 + p.2.length ≤ (unmovedBytes order (overridden s h)).length := by
  intro p hp
  obtain ⟨g, -, rfl⟩ := List.mem_map.mp hp
  have hg := hs g
  rw [length_unmovedBytes, ByteOrder.length_store]
  simp only [GeometryField.lastByte, HeaderKind.length] at hg ⊢
  omega

theorem length_relocatedBytes :
    (relocatedBytes order s h).length = HeaderKind.trace.length := by
  rw [relocatedBytes, Bytes.length_overwriteAll (movedPieces_fit hs order h), length_unmovedBytes]

/-- What no geometry field meets is as if there were none. -/
theorem slice_relocatedBytes_of_spares {start length : Nat} (hr : s.Spares (start, length)) :
    slice (relocatedBytes order s h) start length =
      slice (unmovedBytes order (overridden s h)) start length := by
  refine Bytes.slice_overwriteAll_of_apart (movedPieces_fit hs order h) fun p hp => ?_
  obtain ⟨g, -, rfl⟩ := List.mem_map.mp hp
  rw [ByteOrder.length_store]
  exact hr g

/-- Geometry fields that do not meet are all found again. -/
theorem slice_relocatedBytes_geometry (hd : s.Separated) (g : GeometryField) :
    slice (relocatedBytes order s h) (s.byte g) 4 =
      order.store 4 (h.geometry g).toBitVec.toNat := by
  have hp : (s.byte g, order.store 4 (h.geometry g).toBitVec.toNat) ∈ movedPieces order s h :=
    List.mem_map_of_mem (mem_moved g)
  have hdisjoint : Disjoint (unmovedBytes order (overridden s h)).length
      (spans (movedPieces order s h)) := by
    refine ⟨?_, ?_⟩
    · intro r hr
      obtain ⟨p, hp, rfl⟩ := List.mem_map.mp hr
      exact movedPieces_fit hs order h p hp
    · rw [spans_movedPieces, List.pairwise_map]
      exact List.Pairwise.imp (fun hne => hd _ _ hne) (by decide : moved.Nodup)
  have hslice := Bytes.slice_overwriteAll hdisjoint hp
  rwa [ByteOrder.length_store] at hslice

end Moved

/-! ### The standard layout -/

theorem separated_default : ({} : Settings).Separated := by
  intro g g' hne
  cases g <;> cases g' <;> first | exact absurd rfl hne | decide

theorem geometry_withoutGeometry (h : TraceHeader) (g : GeometryField) :
    h.withoutGeometry.geometry g = 0 := by
  cases g <;> rfl

theorem unmovedPieces_withoutGeometry (order : ByteOrder) (h : TraceHeader) :
    unmovedPieces order h.withoutGeometry = unmovedPieces order h := rfl

/-- Without its geometry, a header in the standard layout is what settings do not move. -/
theorem toBytes_withoutGeometry (order : ByteOrder) (h : TraceHeader) :
    h.withoutGeometry.toBytes order {} = .ok (unmovedBytes order h) := by
  have hfits := Settings.valid_default.byte_le
  have hsame : unmovedBytes order (overridden {} h.withoutGeometry) = unmovedBytes order h := by
    rw [unmovedBytes, unmovedBytes, ← unmovedPieces_withoutGeometry order h]
    rfl
  rw [toBytes_of_int32 order rfl]
  refine congrArg Except.ok (Bytes.ext_of_covering covering_layout
    (length_relocatedBytes hfits ..) (length_unmovedBytes order h) fun r hr => ?_)
  rw [layout_default] at hr
  rcases List.mem_append.mp hr with hr | hr
  · rw [slice_relocatedBytes_of_spares hfits order _ (apart_of_mem_unmovedLayout hr), hsame]
  · -- a geometry field is written as zeros over zeros
    obtain ⟨g, -, rfl⟩ := List.mem_map.mp hr
    refine (slice_relocatedBytes_geometry hfits order _ separated_default g).trans ?_
    rw [slice_unmovedBytes_geometry, geometry_withoutGeometry]
    cases order <;> rfl

/-! ### The scaling that settings override -/

/-- A stored header with the coordinate scalar of the settings, if they have one. -/
def scaled (order : ByteOrder) (s : Settings) (b : Bytes) : Bytes :=
  match s.coordinateScaling with
  | some n => overwrite b TraceField.coordinateScalar.start (order.store 2 n.toBitVec.toNat)
  | none => b

/-- Another value of a field is written over the old one. -/
theorem unmovedBytes_set (order : ByteOrder) (h : TraceHeader) (f : TraceField) (x : f.Value) :
    unmovedBytes order (h.set f x) =
      overwrite (unmovedBytes order h) f.start (f.kind.encode order x) := by
  have hlength := length_unmovedBytes order h
  have hd := disjoint_layout_default
  have hfits : f.start + (f.kind.encode order x).length ≤ (unmovedBytes order h).length := by
    rw [FieldKind.length_encode, hlength]
    exact hd.1 _ (mem_layout_field f)
  refine Bytes.ext_of_covering covering_layout (length_unmovedBytes ..)
    ((Bytes.length_overwrite hfits).trans hlength) fun r hr => ?_
  by_cases hf : r = (f.start, f.kind.width)
  · subst hf
    have hself : slice (overwrite (unmovedBytes order h) f.start (f.kind.encode order x)) f.start
        (f.kind.encode order x).length = f.kind.encode order x :=
      Bytes.slice_overwrite_self (by omega)
    rw [FieldKind.length_encode] at hself
    rw [hself, slice_unmovedBytes_field, set_field_self]
  · have happart := (hd.eq_or_apart hr (mem_layout_field f)).resolve_left hf
    rw [Bytes.slice_overwrite_of_disjoint hfits (by rwa [FieldKind.length_encode])]
    rw [layout_default, unmovedLayout, fixedLayout] at hr
    simp only [List.mem_append, List.mem_map, List.mem_singleton] at hr
    rcases hr with ((⟨g, -, rfl⟩ | rfl) | ⟨c, hc, rfl⟩) | ⟨g, -, rfl⟩
    · have hg : f ≠ g := fun he => hf (he ▸ rfl)
      rw [slice_unmovedBytes_field, slice_unmovedBytes_field, set_field_of_ne h hg]
    · rw [slice_unmovedBytes_name, slice_unmovedBytes_name]
      rfl
    · rw [slice_unmovedBytes_coordinate _ _ hc, slice_unmovedBytes_coordinate _ _ hc]
      rfl
    · rw [slice_unmovedBytes_geometry, slice_unmovedBytes_geometry]

theorem unmovedBytes_overridden (order : ByteOrder) (s : Settings) (h : TraceHeader) :
    unmovedBytes order (overridden s h) = scaled order s (unmovedBytes order h) := by
  rw [overridden, scaled]
  cases s.coordinateScaling with
  | none => rfl
  | some n =>
      have hset := unmovedBytes_set order h .coordinateScalar n
      exact hset

/-! ### Relocated geometry -/

/-- What is read of a header whose geometry fields were put elsewhere. -/
structure Recovered (s : Settings) (h k : TraceHeader) : Prop where
  /-- The geometry is the same. -/
  geometry : ∀ g, k.geometry g = h.geometry g
  /-- What settings override is as they say. -/
  overridden : ∀ f x, override s f = some x → k.field f = x
  /-- Fields that no geometry field meets are the same, but that an invalid code says nothing. -/
  field : ∀ f : TraceField, override s f = none → s.Spares (f.start, f.kind.width) →
    k.field f = f.kind.settled (h.field f)
  coordinate : ∀ c ∈ unmoved, s.Spares (c.start s, 4) → k.coordinate c = h.coordinate c
  name : s.Spares (nameStart, 8) → k.name = h.name

theorem field_overridden {s : Settings} {f : TraceField} (hf : override s f = none)
    (h : TraceHeader) : (TraceHeader.overridden s h).field f = h.field f := by
  unfold TraceHeader.overridden
  split
  · next n hn =>
    refine set_field_of_ne h (fun he => ?_) _
    subst he
    exact absurd (hn.symm.trans hf) (Option.some_ne_none n)
  · rfl

/-- A coordinate that is no geometry field has its place. -/
theorem start_of_unmoved {c : Coordinate} (hc : c ∈ unmoved) (s : Settings) :
    c.start s = c.start {} := by
  cases c <;> first | rfl | exact absurd hc (by decide)

section Relocated

variable {s : Settings} (hs : ∀ g, s.byte g ≤ GeometryField.lastByte) (hsep : s.Separated)
  (hformat : s.coordinateFormat = .int32) (hdim : s.dimX = none)
include hs hsep hformat hdim

/-- What is read of a header whose geometry fields do not meet. -/
theorem exists_recovered (order : ByteOrder) (position : Int) (h : TraceHeader) :
    ∃ k, ofBytes order s position (relocatedBytes order s h) = .ok k ∧ Recovered s h k := by
  have hmoved : ∀ g, Int32.ofNat (order.load (slice (relocatedBytes order s h) (s.byte g) 4)) =
      h.geometry g := fun g => by
    rw [slice_relocatedBytes_geometry hs order h hsep, FieldKind.load_int32]
  refine ⟨_, ofBytes_of_int32 hformat hdim order position _, ?_, ?_, ?_, ?_, ?_⟩
  · intro g
    cases g <;> exact hmoved _
  · intro f x hf
    simp only [readField, hf, Option.getD_some]
  · intro f hf hspares
    simp only [readField, hf, Option.getD_none]
    rw [slice_relocatedBytes_of_spares hs order h hspares, slice_unmovedBytes_field,
      FieldKind.decode_encode, field_overridden hf]
  · intro c hc hspares
    simp only
    rw [slice_relocatedBytes_of_spares hs order h hspares, start_of_unmoved hc,
      slice_unmovedBytes_coordinate _ _ hc, FieldKind.load_int32, coordinate_overridden]
  · intro hspares
    refine readName_of_slice ?_
    rw [slice_relocatedBytes_of_spares hs order h hspares, slice_unmovedBytes_name,
      name_overridden]

end Relocated

/-- Settings that put the geometry fields at odd positions, each over parts of other fields, and
override the scaling. -/
def straddling : Settings where
  byte
    | .inline => 1
    | .crossline => 71
    | .cdpX => 27
    | .cdpY => 229
  coordinateScaling := some 100

theorem reachable_straddling : straddling.Reachable := by
  have h : Settings.ofList [.byte .inline 1, .byte .crossline 71, .byte .cdpX 27, .byte .cdpY 229,
      .coordinateScaling 0x4059000000000000] = .ok straddling := by
    refine congrArg (fun byte => Except.ok { straddling with byte }) (funext fun g => ?_)
    cases g <;> rfl
  exact Settings.reachable_of_ofList h

/-- A header with lines, and values in the fields that the inline is written over. -/
def onInlineSeven : TraceHeader :=
  { (blank.set .sequenceInLine (0x01020304 : Int32)).set .sequenceInFile (0x05060708 : Int32) with
    inline := 7, crossline := -8 }

end TraceHeader

end SegY
