import SegY.Proofs.OpenedFiles
import SegY.Proofs.TraceCodec

/-!
# Opening a file — the bytes that are read

`File.ofImage` says what a file is opened to.  `File.reading` does the same step by step, and keeps
the ranges of the file in which it reads.  What settings override is not read, and neither is what
comes after a fault.

* `Reading`: a value, with the ranges that were read for it.
* `File.value_reading`: what is read makes the file that is opened.
* `File.within_reading`: all of it lies inside the file, whatever the bytes are.
-/

namespace SegY

/-- A value, with the ranges of a file in which bytes were read for it, as positions and lengths. -/
structure Reading (α : Type) where
  ranges : List (Nat × Nat)
  value : α

/-- Reads a range of a file. -/
def Image.reading (image : Image) (start length : Nat) : Reading Bytes :=
  ⟨[(start, length)], image.slice start length⟩

namespace Reading

variable {α β ε ι : Type}

instance : Monad Reading where
  pure x := ⟨[], x⟩
  bind x f := ⟨x.ranges ++ (f x.value).ranges, (f x.value).value⟩

@[simp] theorem value_pure (x : α) : (pure x : Reading α).value = x := rfl

@[simp] theorem value_bind (x : Reading α) (f : α → Reading β) :
    (x >>= f).value = (f x.value).value := rfl

@[simp] theorem value_map (f : α → β) (x : Reading α) : (f <$> x).value = f x.value := rfl

theorem value_ite (c : Prop) [Decidable c] (x y : Reading α) :
    (if c then x else y).value = if c then x.value else y.value :=
  apply_ite ..

@[simp] theorem value_reading (image : Image) (start length : Nat) :
    (image.reading start length).value = image.slice start length := rfl

/-- One value for each member of a family. -/
def each {β : ι → Type} (all : List ι) (x : (i : ι) → Reading (β i)) : Reading ((i : ι) → β i) :=
  ⟨all.flatMap fun i => (x i).ranges, fun i => (x i).value⟩

/-- One value for each member of a list. -/
def collect (all : List ι) (x : ι → Reading α) : Reading (List α) :=
  ⟨all.flatMap fun i => (x i).ranges, all.map fun i => (x i).value⟩

@[simp] theorem value_each {β : ι → Type} (all : List ι) (x : (i : ι) → Reading (β i)) :
    (each all x).value = fun i => (x i).value := rfl

/-- A value that settings can have, and that is read if they do not. -/
def unlessSet (setting : Option α) (x : Reading α) : Reading α :=
  match setting with
  | some value => pure value
  | none => x

@[simp] theorem value_unlessSet (setting : Option α) (x : Reading α) :
    (unlessSet setting x).value = setting.getD x.value := by
  cases setting <;> rfl

/-- What follows if the first does not fail. -/
def andThen (x : Reading (Except ε α)) (f : α → Reading (Except ε β)) : Reading (Except ε β) := do
  match ← x with
  | .ok a => f a
  | .error e => return .error e

@[simp] theorem value_andThen (x : Reading (Except ε α)) (f : α → Reading (Except ε β)) :
    (x.andThen f).value = x.value >>= fun a => (f a).value := by
  rw [andThen, value_bind]
  cases x.value <;> rfl

/-! ### Which ranges are read -/

/-- All ranges that were read have a property. -/
def All (P : Nat × Nat → Prop) (x : Reading α) : Prop := ∀ r ∈ x.ranges, P r

section All

variable {P : Nat × Nat → Prop}

theorem all_pure (x : α) : All P (pure x) := fun _ h => absurd h List.not_mem_nil

theorem all_reading {image : Image} {start length : Nat} (h : P (start, length)) :
    All P (image.reading start length) := fun _ hr => List.mem_singleton.mp hr ▸ h

theorem All.bind {x : Reading α} {f : α → Reading β} (hx : x.All P) (hf : (f x.value).All P) :
    (x >>= f).All P := by
  intro r hr
  rcases List.mem_append.mp hr with hr | hr
  · exact hx r hr
  · exact hf r hr

theorem All.map {x : Reading α} (hx : x.All P) (f : α → β) : (f <$> x).All P :=
  hx.bind (all_pure _)

theorem all_collect {all : List ι} {x : ι → Reading α} (h : ∀ i ∈ all, (x i).All P) :
    (collect all x).All P := by
  intro r hr
  obtain ⟨i, hi, hr⟩ := List.mem_flatMap.mp hr
  exact h i hi r hr

theorem All.andThen {x : Reading (Except ε α)} {f : α → Reading (Except ε β)} (hx : x.All P)
    (hf : ∀ a, x.value = .ok a → (f a).All P) : (x.andThen f).All P := by
  refine hx.bind ?_
  cases h : x.value with
  | ok a => exact hf a h
  | error e => exact all_pure _

end All

/-- All that was read lies inside a file of this size. -/
def Within (size : Nat) (x : Reading α) : Prop := ∀ r ∈ x.ranges, r.1 + r.2 ≤ size

variable {size : Nat}

theorem within_pure (x : α) : Within size (pure x) := all_pure x

theorem within_reading {image : Image} {start length : Nat} (h : start + length ≤ size) :
    Within size (image.reading start length) := all_reading h

theorem Within.bind {x : Reading α} {f : α → Reading β} (hx : x.Within size)
    (hf : (f x.value).Within size) : (x >>= f).Within size := All.bind hx hf

theorem Within.map {x : Reading α} (hx : x.Within size) (f : α → β) : (f <$> x).Within size :=
  All.map hx f

theorem Within.unlessSet {x : Reading α} (hx : x.Within size) (setting : Option α) :
    (Reading.unlessSet setting x).Within size := by
  cases setting with
  | some value => exact within_pure value
  | none => exact hx

theorem within_collect {all : List ι} {x : ι → Reading α} (h : ∀ i ∈ all, (x i).Within size) :
    (collect all x).Within size := all_collect h

theorem within_each {β : ι → Type} {all : List ι} {x : (i : ι) → Reading (β i)}
    (h : ∀ i, (x i).Within size) : (each all x).Within size := by
  intro r hr
  obtain ⟨i, -, hi⟩ := List.mem_flatMap.mp hr
  exact h i r hi

theorem Within.andThen {x : Reading (Except ε α)} {f : α → Reading (Except ε β)}
    (hx : x.Within size) (hf : ∀ a, x.value = .ok a → (f a).Within size) :
    (x.andThen f).Within size := All.andThen hx hf

end Reading

open Reading

/-! ### The tape label -/

namespace TapeLabel

/-- Reads whether a file starts with a label. -/
def readingPresent (image : Image) : Reading Bool := do
  if image.size ≤ HeaderKind.label.length then return false
  else
    let first ← image.reading 0 1
    if isC (first.headD 0) then return false
    else
      let c ← image.reading HeaderKind.label.length 1
      return isC (c.headD 0)

/-- Reads the label of a file. -/
def reading (image : Image) : Reading (Except HeaderError TapeLabel) := do
  let digits ← trim <$> image.reading blockSizeStart blockSizeWidth
  if digits.isEmpty || !digits.all isDigit then return .error (.blockSizeText digits)
  else
    let field ← each LabelField.all fun f =>
      (fun b => Vector.ofFn fun i : Fin f.width => b.getD i 0) <$> image.reading f.start f.width
    return .ok { field, maxBlockSize := UInt64.ofNat (ofDigits digits) }

theorem headD_slice {image : Image} {pos : Nat} {c : UInt8} (h : image[pos]? = some c) :
    (image.slice pos 1).headD 0 = c := by
  have hpos : (image.slice pos 1)[0]? = some c := by
    rw [Image.slice_eq, Bytes.slice, List.getElem?_take_of_lt Nat.one_pos, List.getElem?_drop,
      Nat.add_zero, Array.getElem?_toList, h]
  rw [List.headD_eq_head?_getD, List.head?_eq_getElem?, hpos]
  rfl

theorem value_readingPresent (image : Image) : (readingPresent image).value = isPresent image := by
  unfold readingPresent isPresent
  split
  · next hshort =>
    rw [Array.getElem?_eq_none hshort]
    cases image[0]? <;> rfl
  · next hlong =>
    rw [Nat.not_le] at hlong
    have hzero : 0 < image.size := Nat.lt_of_le_of_lt (Nat.zero_le _) hlong
    have hfirst := Array.getElem?_eq_getElem hzero
    have hc := Array.getElem?_eq_getElem hlong
    rw [value_bind, Reading.value_reading, headD_slice hfirst, hfirst, hc]
    simp only
    split
    · next h => rw [h]; rfl
    · next h =>
      rw [value_bind, Reading.value_reading, headD_slice hc]
      simp [h]

theorem within_readingPresent (image : Image) : (readingPresent image).Within image.size := by
  unfold readingPresent
  split
  · exact within_pure _
  · next hlong =>
    rw [Nat.not_le] at hlong
    refine (within_reading (by omega)).bind ?_
    split
    · exact within_pure _
    · exact (within_reading hlong).bind (within_pure _)

theorem field_fits (f : LabelField) : f.start + f.width ≤ HeaderKind.label.length := by
  cases f <;> decide

theorem value_reading (image : Image) :
    (reading image).value = ofBytes (image.slice 0 HeaderKind.label.length) := by
  have hdigits : Bytes.slice (image.slice 0 HeaderKind.label.length) blockSizeStart blockSizeWidth =
      image.slice blockSizeStart blockSizeWidth := by
    rw [Image.slice_slice (by decide), Nat.zero_add]
  have hbyte : ∀ (f : LabelField) (i : Fin f.width), (image.slice f.start f.width).getD i 0 =
      (image.slice 0 HeaderKind.label.length).getD (f.start + i) 0 := fun f i => by
    have hslice : Bytes.slice (image.slice 0 HeaderKind.label.length) f.start f.width =
        image.slice (0 + f.start) f.width := Image.slice_slice (field_fits f)
    rw [Nat.zero_add] at hslice
    rw [← hslice, List.getD_eq_getElem?_getD, List.getD_eq_getElem?_getD, Bytes.slice,
      List.getElem?_take_of_lt i.isLt, List.getElem?_drop]
  rw [reading, ofBytes, value_bind, value_map, Reading.value_reading, hdigits, value_ite]
  simp only [value_bind, value_map, value_each, value_pure, Reading.value_reading, hbyte]

theorem within_reading {image : Image} (h : HeaderKind.label.length ≤ image.size) :
    (reading image).Within image.size := by
  refine ((Reading.within_reading (Nat.le_trans (by decide) h)).map _).bind ?_
  split
  · exact within_pure _
  · refine (within_each fun f => ?_).bind (within_pure _)
    exact (Reading.within_reading (Nat.le_trans (field_fits f) h)).map _

end TapeLabel

/-! ### The binary header -/

namespace BinaryHeader

/-- Reads the byte order that the marker tells. -/
def readingOrder (image : Image) (pos : Nat) (s : Settings) : Reading ByteOrder :=
  unlessSet s.endianness <|
    (fun b => if b = marker .little then ByteOrder.little else .big) <$>
      image.reading (pos + markerStart) 4

/-- Reads a field. -/
def readingField (image : Image) (pos : Nat) (order : ByteOrder) (s : Settings)
    (f : BinaryField) : Reading f.Value :=
  unlessSet (override s f) <|
    f.kind.decode order <$> image.reading (pos + f.start) f.kind.width

/-- Reads the sample format. -/
def readingFormat (image : Image) (pos : Nat) (order : ByteOrder) (s : Settings) :
    Reading (Except UnknownCode SampleFormat) :=
  unlessSet (s.format.map Except.ok) <|
    (fun b => formatOfCode (order.load b)) <$> image.reading (pos + formatStart) 2

/-- Reads the binary header at a position of a file. -/
def reading (image : Image) (pos : Nat) (s : Settings) :
    Reading (Except UnknownCode BinaryHeader) := do
  let order ← readingOrder image pos s
  let field ← each BinaryField.all (readingField image pos order s)
  let format ← readingFormat image pos order s
  let flag ← image.reading (pos + flagStart) 2
  return do
    let format ← format
    let fixedLength ← flagOfCode (order.load flag)
    return { field, format, fixedLength, order }

theorem field_fits (f : BinaryField) : f.start + f.kind.width ≤ HeaderKind.binary.length := by
  cases f <;> decide

theorem value_readingField (image : Image) (pos : Nat) (order : ByteOrder) (s : Settings)
    (f : BinaryField) : (readingField image pos order s f).value =
      readField order s (image.slice pos HeaderKind.binary.length) f := by
  rw [readingField, value_unlessSet, value_map, Reading.value_reading, readField,
    Image.slice_slice (field_fits f)]

theorem value_reading (image : Image) (pos : Nat) (s : Settings) :
    (reading image pos s).value = ofBytes s (image.slice pos HeaderKind.binary.length) := by
  have horder : (readingOrder image pos s).value =
      s.endianness.getD (detectOrder (image.slice pos HeaderKind.binary.length)) := by
    rw [readingOrder, value_unlessSet, value_map, Reading.value_reading, detectOrder,
      Image.slice_slice (by decide)]
  have hformat : ∀ order, (readingFormat image pos order s).value =
      readFormat order s (image.slice pos HeaderKind.binary.length) := fun order => by
    rw [readingFormat, value_unlessSet, value_map, Reading.value_reading, readFormat,
      Image.slice_slice (by decide)]
    cases s.format <;> rfl
  have hfield : ∀ order, (fun f => (readingField image pos order s f).value) =
      readField order s (image.slice pos HeaderKind.binary.length) := fun order =>
    funext fun f => value_readingField image pos order s f
  rw [reading, ofBytes, Image.slice_slice (by decide)]
  simp only [value_bind, value_each, value_pure, Reading.value_reading, horder, hformat, hfield]

theorem within_reading {image : Image} {pos : Nat}
    (h : pos + HeaderKind.binary.length ≤ image.size) (s : Settings) :
    (reading image pos s).Within image.size := by
  have part : ∀ start length, start + length ≤ HeaderKind.binary.length →
      (image.reading (pos + start) length).Within image.size := fun start length hfits =>
    Reading.within_reading (by omega)
  have horder : (readingOrder image pos s).Within image.size :=
    ((part markerStart 4 (by decide)).map _).unlessSet _
  have hfield : ∀ order f, (readingField image pos order s f).Within image.size :=
    fun order f => ((part _ _ (field_fits f)).map _).unlessSet _
  have hformat : ∀ order, (readingFormat image pos order s).Within image.size :=
    fun order => ((part formatStart 2 (by decide)).map _).unlessSet _
  exact horder.bind ((within_each (hfield _)).bind ((hformat _).bind
    ((part flagStart 2 (by decide)).bind (within_pure _))))

end BinaryHeader

/-! ### The trace headers -/

namespace TraceHeader

/-- Reads a field. -/
def readingField (image : Image) (pos : Nat) (order : ByteOrder) (s : Settings)
    (f : TraceField) : Reading f.Value :=
  unlessSet (override s f) <|
    f.kind.decode order <$> image.reading (pos + f.start) f.kind.width

/-- Reads a coordinate, if its bytes are one. -/
def readingCoordinate (image : Image) (pos : Nat) (order : ByteOrder) (s : Settings)
    (c : Coordinate) : Reading (Except ConversionError Int32) :=
  s.coordinateFormat.decode order <$> image.reading (pos + c.start s) 4

/-- Reads a line number. -/
def readingLine (image : Image) (pos : Nat) (order : ByteOrder) (s : Settings)
    (g : GeometryField) : Reading Int32 :=
  (fun b => Int32.ofNat (order.load b)) <$> image.reading (pos + s.byte g) 4

/-- Reads the inline and the crossline, unless they follow from the ordinal of the trace. -/
def readingLines (image : Image) (pos : Nat) (order : ByteOrder) (s : Settings) (position : Int)
    (field : (f : TraceField) → f.Value) : Reading (Int32 × Int32) :=
  match s.dimX with
  | some dim =>
    let n := ordinal s.order field position
    pure (Int32.ofInt (n.tdiv dim), Int32.ofInt (n.tmod dim))
  | none => do
    let inline ← readingLine image pos order s .inline
    let crossline ← readingLine image pos order s .crossline
    return (inline, crossline)

/-- Reads the name. -/
def readingName (image : Image) (pos : Nat) (order : ByteOrder) : Reading TraceName :=
  (fun b => Vector.ofFn fun i => (order.arrange b).getD i 0) <$>
    image.reading (pos + nameStart) 8

/-- The header that has these parts, unless one of its coordinates cannot be read. -/
def ofParts (field : (f : TraceField) → f.Value)
    (coordinate : Coordinate → Except ConversionError Int32) (lines : Int32 × Int32)
    (name : TraceName) : Except ConversionError TraceHeader :=
  let failure? (c : Coordinate) : Option ConversionError :=
    match coordinate c with
    | .ok _ => none
    | .error e => some e
  match Coordinate.all.findSome? failure? with
  | some e => .error e
  | none => .ok {
      field, coordinate := fun c => (coordinate c).toOption.getD 0
      inline := lines.1, crossline := lines.2, name }

theorem ofBytes_eq (order : ByteOrder) (s : Settings) (position : Int) (b : Bytes) :
    ofBytes order s position b = ofParts (readField order s b) (readCoordinate order s b)
      (readLines order s position b) (readName order b) := rfl

/-- Reads the trace header at a position of a file. -/
def reading (image : Image) (pos : Nat) (order : ByteOrder) (s : Settings) (position : Int) :
    Reading (Except ConversionError TraceHeader) := do
  let field ← each TraceField.all (readingField image pos order s)
  let coordinate ← each Coordinate.all (readingCoordinate image pos order s)
  let lines ← readingLines image pos order s position field
  let name ← readingName image pos order
  return ofParts field coordinate lines name

theorem field_fits (f : TraceField) : f.start + f.kind.width ≤ HeaderKind.trace.length :=
  fixedLayout_fits _ (List.mem_append_left _ (List.mem_map_of_mem f.mem_all))

theorem geometry_fits {n : Nat} (h : n ≤ GeometryField.lastByte) :
    n + 4 ≤ HeaderKind.trace.length := by
  simp only [GeometryField.lastByte, HeaderKind.length] at h ⊢
  omega

section Header

variable {s : Settings} (hs : ∀ g, s.byte g ≤ GeometryField.lastByte) {image : Image} {pos : Nat}

theorem value_readingField (order : ByteOrder) (f : TraceField) :
    (readingField image pos order s f).value =
      readField order s (image.slice pos HeaderKind.trace.length) f := by
  rw [readingField, value_unlessSet, value_map, Reading.value_reading, readField,
    Image.slice_slice (field_fits f)]

theorem value_readingName (order : ByteOrder) : (readingName image pos order).value =
    readName order (image.slice pos HeaderKind.trace.length) := by
  rw [readingName, value_map, Reading.value_reading, readName, Image.slice_slice (by decide)]

include hs

theorem value_readingCoordinate (order : ByteOrder) (c : Coordinate) :
    (readingCoordinate image pos order s c).value =
      readCoordinate order s (image.slice pos HeaderKind.trace.length) c := by
  rw [readingCoordinate, value_map, Reading.value_reading, readCoordinate,
    Image.slice_slice (geometry_fits (coordinate_start_le hs c))]

theorem value_readingLine (order : ByteOrder) (g : GeometryField) :
    (readingLine image pos order s g).value =
      readLine order s (image.slice pos HeaderKind.trace.length) g := by
  rw [readingLine, value_map, Reading.value_reading, readLine,
    Image.slice_slice (geometry_fits (hs g))]

theorem value_readingLines (order : ByteOrder) (position : Int) :
    (readingLines image pos order s position
      (readField order s (image.slice pos HeaderKind.trace.length))).value =
      readLines order s position (image.slice pos HeaderKind.trace.length) := by
  rw [readingLines, readLines]
  cases s.dimX with
  | some dim => rfl
  | none =>
      simp only [value_bind, value_pure, value_readingLine hs]

theorem value_reading (order : ByteOrder) (position : Int) :
    (reading image pos order s position).value =
      ofBytes order s position (image.slice pos HeaderKind.trace.length) := by
  have hfield : (fun f => (readingField image pos order s f).value) =
      readField order s (image.slice pos HeaderKind.trace.length) :=
    funext fun f => value_readingField order f
  have hcoordinate : (fun c => (readingCoordinate image pos order s c).value) =
      readCoordinate order s (image.slice pos HeaderKind.trace.length) :=
    funext fun c => value_readingCoordinate hs order c
  rw [reading, ofBytes_eq]
  simp only [value_bind, value_each, value_pure, hfield, hcoordinate, value_readingLines hs,
    value_readingName]

theorem within_reading (h : pos + HeaderKind.trace.length ≤ image.size) (order : ByteOrder)
    (position : Int) : (reading image pos order s position).Within image.size := by
  have part : ∀ start length, start + length ≤ HeaderKind.trace.length →
      (image.reading (pos + start) length).Within image.size := fun start length hfits =>
    Reading.within_reading (by omega)
  have hfield : ∀ f, (readingField image pos order s f).Within image.size :=
    fun f => ((part _ _ (field_fits f)).map _).unlessSet _
  have hcoordinate : ∀ c, (readingCoordinate image pos order s c).Within image.size :=
    fun c => (part _ _ (geometry_fits (coordinate_start_le hs c))).map _
  have hline : ∀ g, (readingLine image pos order s g).Within image.size :=
    fun g => (part _ _ (geometry_fits (hs g))).map _
  have hlines : ∀ field, (readingLines image pos order s position field).Within image.size := by
    intro field
    rw [readingLines]
    cases s.dimX with
    | some dim => exact within_pure _
    | none => exact (hline .inline).bind ((hline .crossline).bind (within_pure _))
  have hname : (readingName image pos order).Within image.size := (part _ _ (by decide)).map _
  exact (within_each hfield).bind ((within_each hcoordinate).bind ((hlines _).bind
    (hname.bind (within_pure _))))

end Header

end TraceHeader

/-! ### The scan -/

namespace Scan

variable (image : Image) (binary : BinaryHeader) (s : Settings)

/-- Reads the trace header at a position of a file, as that of record `k`. -/
def readingHeader (pos k : Nat) : Reading (Except ConversionError TraceHeader) :=
  TraceHeader.reading image pos binary.order s k

/-- Reads whether a whole record of fixed length at a position has a header that can be read. -/
def readingProbe (pos k : Nat) : Reading Bool :=
  if pos + HeaderKind.trace.length + dataLength binary binary.samples ≤ image.size then
    (·.isOk) <$> readingHeader image binary s pos k
  else pure false

/-- Reads what is found in a file of fixed length. -/
def readingFixed (pos k : Nat) : Reading (ScanStep image pos) :=
  let length := dataLength binary binary.samples
  if fits : pos + HeaderKind.trace.length + length ≤ image.size then
    if s.maxTraceCount ≤ k then pure (.stop .traceLimit [])
    else do
      match ← readingHeader image binary s pos k with
      | .ok header => return .record header length fits
      | .error e =>
        if k = 0 then return .fault (.conversion e)
        else
          let next ← readingProbe image binary s (pos + HeaderKind.trace.length + length) (k + 1)
          if next then return .stop .suspectedCorruption (Error.conversion e).text
          else return .stop .suspectedEndOfData (Error.conversion e).text
  else pure (.stop .endOfFile [])

/-- Reads what is found in a file whose traces differ in length. -/
def readingVariable (pos k : Nat) : Reading (ScanStep image pos) :=
  if s.maxTraceCount ≤ k then pure (.stop .traceLimit [])
  else if image.size < pos + HeaderKind.trace.length then pure (.stop .endOfFile [])
  else do
    match ← readingHeader image binary s pos k with
    | .ok header =>
      let length := dataLength binary header.samples
      if fits : pos + HeaderKind.trace.length + length ≤ image.size then
        return .record header length fits
      else return .fault (.malformed
        (.incompleteTrace k pos (HeaderKind.trace.length + length) (image.size - pos)))
    | .error e => return .stop .headerFailure (Error.conversion e).text

/-- Reads what is found at a position of a file. -/
def readingStep (pos k : Nat) : Reading (ScanStep image pos) :=
  if binary.fixedLength then readingFixed image binary s pos k
  else readingVariable image binary s pos k

/-- Reads the traces from record `k` on, which is at a position of a file. -/
def readingWalk (pos k : Nat) : Reading (Except Error (List Trace × ScanReport)) := do
  match ← readingStep image binary s pos k with
  | .stop reason message => return .ok ([], ⟨reason, pos, k, message⟩)
  | .fault e => return .error e
  | .record header length _ =>
    match ← readingWalk (pos + HeaderKind.trace.length + length) (k + 1) with
    | .ok (traces, report) =>
      return .ok ((trace? binary s pos header length).toList ++ traces, report)
    | .error e => return .error e
termination_by image.size - pos
decreasing_by
  simp only [HeaderKind.length] at *
  omega

section Walk

variable {image binary s} (hs : ∀ g, s.byte g ≤ GeometryField.lastByte)
include hs

theorem value_readingHeader (pos k : Nat) :
    (readingHeader image binary s pos k).value = headerAt image binary s pos k :=
  TraceHeader.value_reading hs binary.order k

theorem within_readingHeader {pos : Nat} (h : pos + HeaderKind.trace.length ≤ image.size)
    (k : Nat) : (readingHeader image binary s pos k).Within image.size :=
  TraceHeader.within_reading hs h binary.order k

theorem value_readingProbe (pos k : Nat) :
    (readingProbe image binary s pos k).value = probe image binary s pos k := by
  rw [readingProbe, probe, value_ite, value_map, value_readingHeader hs, value_pure]
  split <;> simp [*]

theorem within_readingProbe (pos k : Nat) :
    (readingProbe image binary s pos k).Within image.size := by
  rw [readingProbe]
  split
  · exact (within_readingHeader hs (by omega) k).map _
  · exact within_pure _

theorem value_readingFixed (pos k : Nat) :
    (readingFixed image binary s pos k).value = fixedStep image binary s pos k := by
  rw [readingFixed, fixedStep]
  by_cases fits :
      pos + HeaderKind.trace.length + dataLength binary binary.samples ≤ image.size
  · rw [dif_pos fits, dif_pos fits, value_ite, value_bind, value_readingHeader hs]
    cases headerAt image binary s pos k with
    | ok header => rfl
    | error e =>
        simp only [value_ite, value_bind, value_pure, value_readingProbe hs]
  · rw [dif_neg fits, dif_neg fits, value_pure]

theorem within_readingFixed (pos k : Nat) :
    (readingFixed image binary s pos k).Within image.size := by
  rw [readingFixed]
  split
  · split
    · exact within_pure _
    · refine (within_readingHeader hs (by omega) k).bind ?_
      split
      · exact within_pure _
      · split
        · exact within_pure _
        · refine (within_readingProbe hs _ _).bind ?_
          split <;> exact within_pure _
  · exact within_pure _

theorem value_readingVariable (pos k : Nat) :
    (readingVariable image binary s pos k).value = variableStep image binary s pos k := by
  rw [readingVariable, variableStep, value_ite, value_ite, value_bind, value_readingHeader hs]
  cases headerAt image binary s pos k with
  | ok header =>
      simp only [apply_dite Reading.value, value_pure]
  | error e => rfl

theorem within_readingVariable (pos k : Nat) :
    (readingVariable image binary s pos k).Within image.size := by
  rw [readingVariable]
  split
  · exact within_pure _
  · split
    · exact within_pure _
    · refine (within_readingHeader hs (by omega) k).bind ?_
      split
      · dsimp only
        split <;> exact within_pure _
      · exact within_pure _

theorem value_readingStep (pos k : Nat) :
    (readingStep image binary s pos k).value = step image binary s pos k := by
  rw [readingStep, step, value_ite, value_readingFixed hs, value_readingVariable hs]

theorem within_readingStep (pos k : Nat) :
    (readingStep image binary s pos k).Within image.size := by
  rw [readingStep]
  split
  · exact within_readingFixed hs pos k
  · exact within_readingVariable hs pos k

/-- A walk reads what is found at its first record, and then at those after it. -/
theorem value_readingWalk (pos k : Nat) :
    (readingWalk image binary s pos k).value = walk image binary s pos k := by
  rw [readingWalk, walk, value_bind, value_readingStep hs]
  cases step image binary s pos k with
  | stop reason message => rfl
  | fault e => rfl
  | record header length fits =>
      simp only [value_bind]
      rw [value_readingWalk (pos + HeaderKind.trace.length + length) (k + 1)]
      cases walk image binary s (pos + HeaderKind.trace.length + length) (k + 1) <;> rfl
termination_by image.size - pos
decreasing_by
  have hlen : HeaderKind.trace.length = 240 := rfl
  omega

theorem within_readingWalk (pos k : Nat) :
    (readingWalk image binary s pos k).Within image.size := by
  rw [readingWalk]
  refine (within_readingStep hs pos k).bind ?_
  cases (readingStep image binary s pos k).value with
  | stop reason message => exact within_pure _
  | fault e => exact within_pure _
  | record header length fits =>
      refine (within_readingWalk (pos + HeaderKind.trace.length + length) (k + 1)).bind ?_
      split <;> exact within_pure _
termination_by image.size - pos
decreasing_by
  have hlen : HeaderKind.trace.length = 240 := rfl
  omega

end Walk

end Scan

/-! ### The file -/

namespace File

/-- Reads the tape label, if there is one. -/
def readingLabel (image : Image) (labelled : Bool) : Reading (Except Error (Option TapeLabel)) :=
  if labelled then
    (fun label => (label.mapError Error.header).map some) <$> TapeLabel.reading image
  else pure (.ok none)

/-- Reads the text header. -/
def readingText (image : Image) (labelled : Bool) : Reading Bytes :=
  TextHeader.decode <$> image.reading (textStart labelled) TextHeader.size

/-- Reads consecutive text headers from a position on. -/
def readingTexts (image : Image) (pos count : Nat) : Reading (List Bytes) :=
  Reading.collect (List.range count) fun i =>
    TextHeader.decode <$> image.reading (pos + i * TextHeader.size) TextHeader.size

/-- Reads the binary header. -/
def readingBinary (image : Image) (labelled : Bool) (s : Settings) :
    Reading (Except Error BinaryHeader) :=
  (·.mapError .unknownCode) <$> BinaryHeader.reading image (binaryStart labelled) s

/-- Reads the extended text headers and the traces of a file. -/
def readingTraces (image : Image) (labelled : Bool) (s : Settings) (label : Option TapeLabel)
    (text : Bytes) (binary : BinaryHeader) : Reading (Except Error File) :=
  let count := binary.extendedHeaders.toNat
  let fitting := extendedFitting image labelled
  let start := extendedStart labelled
  if fitting < count then pure (.error (.malformed (.extendedHeaders count fitting)))
  else do
    let extended ← readingTexts image start count
    let found ← Scan.readingWalk image binary s (start + count * TextHeader.size) 0
    return found.map fun (traces, report) => {
      image, settings := s, label, text, extended
      binary := Scan.cut binary s, traces, report }

/-- Reads a file, from its first byte to what the scan ends with. -/
def reading (s : Settings) (image : Image) : Reading (Except Error File) := do
  let labelled ← TapeLabel.readingPresent image
  if image.size ≤ minimumSize labelled then
    return .error (.malformed (.fileTooShort image.size (minimumSize labelled)))
  else
    (readingLabel image labelled).andThen fun label => do
      let text ← readingText image labelled
      (readingBinary image labelled s).andThen fun binary =>
        readingTraces image labelled s label text binary

section Opening

variable {s : Settings} {image : Image} {labelled : Bool}

theorem value_readingLabel :
    (readingLabel image labelled).value = readLabel image labelled := by
  rw [readingLabel, readLabel, value_ite, value_map, TapeLabel.value_reading, value_pure]

theorem value_readingBinary :
    (readingBinary image labelled s).value =
      (readBinary image labelled s).mapError .unknownCode := by
  rw [readingBinary, value_map, BinaryHeader.value_reading, readBinary]

variable (hs : ∀ g, s.byte g ≤ GeometryField.lastByte)
include hs

theorem value_readingTraces (label : Option TapeLabel) (binary : BinaryHeader) :
    (readingTraces image labelled s label (readingText image labelled).value binary).value =
      withTraces image labelled s label binary := by
  rw [readingTraces, withTraces, value_ite, value_bind, value_bind, value_pure, value_pure,
    Scan.value_readingWalk hs, scan]
  cases Scan.walk image binary s
    (extendedStart labelled + binary.extendedHeaders.toNat * TextHeader.size) 0 <;> rfl

/-- **What is read makes the file that is opened.** -/
theorem value_reading (image : Image) : (reading s image).value = ofImage s image := by
  rw [reading, ofImage, value_bind, TapeLabel.value_readingPresent, value_ite]
  simp only [value_andThen, value_bind, value_pure, value_readingLabel, value_readingBinary,
    value_readingTraces hs]

omit hs in
/-- A file that is not too short holds its headers. -/
theorem headers_fit (hlong : minimumSize labelled < image.size) :
    HeaderKind.label.length ≤ image.size ∧ textStart labelled + TextHeader.size ≤ image.size ∧
      binaryStart labelled + HeaderKind.binary.length ≤ image.size := by
  have hlabel : HeaderKind.label.length ≤ minimumSize labelled := by cases labelled <;> decide
  rw [minimumSize, extendedStart, binaryStart] at hlong hlabel
  rw [binaryStart]
  omega

theorem within_readingTraces (hlong : minimumSize labelled < image.size)
    (label : Option TapeLabel) (text : Bytes) (binary : BinaryHeader) :
    (readingTraces image labelled s label text binary).Within image.size := by
  rw [readingTraces]
  split
  · exact within_pure _
  · next hfits =>
    refine Within.bind ?_ ((Scan.within_readingWalk hs _ 0).bind (within_pure _))
    rw [extendedFitting_lt_iff hlong, Nat.not_lt, tracesStart] at hfits
    refine within_collect fun i hi => (Reading.within_reading ?_).map _
    have hi' := Nat.mul_le_mul_right TextHeader.size (Nat.succ_le_of_lt (List.mem_range.mp hi))
    rw [Nat.succ_mul] at hi'
    omega

/-- **Nothing outside a file is read**, whatever bytes it has and wherever settings put the
geometry fields. -/
theorem within_reading (image : Image) : (reading s image).Within image.size := by
  refine (TapeLabel.within_readingPresent image).bind ?_
  rw [TapeLabel.value_readingPresent]
  generalize TapeLabel.isPresent image = labelled
  split
  · exact within_pure _
  · next hlong =>
    rw [Nat.not_le] at hlong
    obtain ⟨hlabel, htext, hbinary⟩ := headers_fit hlong
    refine Within.andThen ?_ fun label _ => Within.bind ?_ (Within.andThen ?_ fun binary _ => ?_)
    · rw [readingLabel]
      split
      · exact (TapeLabel.within_reading hlabel).map _
      · exact within_pure _
    · exact (Reading.within_reading htext).map _
    · exact (BinaryHeader.within_reading hbinary s).map _
    · exact within_readingTraces hs hlong label _ binary

end Opening

end File

end SegY
