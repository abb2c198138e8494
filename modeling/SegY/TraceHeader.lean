import SegY.TraceField

/-!
# The trace header

The 240 bytes before the samples of a trace.  `TraceHeader.ofBytes` reads a header.  It fails exactly if a
coordinate cannot be read, and the first such coordinate in the order of `Coordinate.all` is the one that
is reported.  `TraceHeader.toBytes` writes one.  The geometry fields are written last, in the order x, y,
inline, crossline, over whatever else is there.

In an imposed geometry the line numbers are not read at all, but follow from the ordinal of the trace.
-/

namespace SegY

/-- The eight bytes of a trace's name. -/
abbrev TraceName := Vector UInt8 8

/-- A trace header. -/
structure TraceHeader where
  /-- The fields of fixed place. -/
  field : (f : TraceField) → f.Value
  /-- The coordinates. -/
  coordinate : Coordinate → Int32
  /-- The inline number. -/
  inline : Int32
  /-- The crossline number. -/
  crossline : Int32
  /-- The name, in the order of a little-endian file. -/
  name : TraceName

namespace TraceHeader

/-- A header of which nothing is set. -/
def blank : TraceHeader where
  field f := f.kind.zero
  coordinate _ := 0
  inline := 0
  crossline := 0
  name := Vector.replicate 8 0

instance : Inhabited TraceHeader := ⟨blank⟩

/-- The header with another value of a field. -/
def set (h : TraceHeader) (f : TraceField) (x : f.Value) : TraceHeader :=
  { h with field := fun g => if e : f = g then e ▸ x else h.field g }

/-- The header with another value of a coordinate. -/
def setCoordinate (h : TraceHeader) (c : Coordinate) (x : Int32) : TraceHeader :=
  { h with coordinate := fun d => if d = c then x else h.coordinate d }

/-- The number of samples that the header declares. -/
def samples (h : TraceHeader) : UInt16 := h.field .samples

/-- The header with another number of samples. -/
def withSamples (h : TraceHeader) (n : Nat) : TraceHeader := h.set .samples (UInt16.ofNat n)

/-- Whether two headers agree in every field. -/
def beq (h k : TraceHeader) : Bool :=
  TraceField.all.all (fun f => h.field f == k.field f) &&
    Coordinate.all.all (fun c => h.coordinate c == k.coordinate c) &&
    h.inline == k.inline && h.crossline == k.crossline && h.name == k.name

instance : BEq TraceHeader := ⟨beq⟩

/-- The value of a geometry field. -/
def geometry (h : TraceHeader) : GeometryField → Int32
  | .inline => h.inline
  | .crossline => h.crossline
  | .cdpX => h.coordinate .cdpX
  | .cdpY => h.coordinate .cdpY

/-- The position of the name. -/
def nameStart : Nat := 232

/-- The ordinal of a trace at a position of the file, where a geometry is imposed. -/
def ordinal (order : TraceOrder) (field : (f : TraceField) → f.Value) (position : Int) : Int :=
  let number (n : Int32) : Int := n.toInt
  match order with
  | .position => position
  | .sequenceInLine => number (field .sequenceInLine)
  | .sequenceInFile => number (field .sequenceInFile)
  | .fieldRecord => number (field .fieldRecord)
  | .numberInFieldRecord => number (field .numberInFieldRecord)
  | .numberInEnsemble => number (field .numberInEnsemble)

/-- A field that settings override when a header is read. -/
def override (s : Settings) : (f : TraceField) → Option f.Value
  | .traceId => s.traceId
  | .coordinateScalar => s.coordinateScaling
  | _ => none

/-- A field of a stored header, or what settings override it with. -/
def readField (order : ByteOrder) (s : Settings) (b : Bytes) (f : TraceField) : f.Value :=
  (override s f).getD (f.kind.decode order (Bytes.slice b f.start f.kind.width))

/-- A coordinate of a stored header. -/
def readCoordinate (order : ByteOrder) (s : Settings) (b : Bytes) (c : Coordinate) :
    Except ConversionError Int32 :=
  s.coordinateFormat.decode order (Bytes.slice b (c.start s) 4)

/-- A line number of a stored header. -/
def readLine (order : ByteOrder) (s : Settings) (b : Bytes) (g : GeometryField) : Int32 :=
  Int32.ofNat (order.load (Bytes.slice b (s.byte g) 4))

/-- The inline and the crossline of a stored header.  In an imposed geometry they follow from the trace's
ordinal and the number of crosslines. -/
def readLines (order : ByteOrder) (s : Settings) (position : Int) (b : Bytes) : Int32 × Int32 :=
  match s.dimX with
  | some dim =>
    let n := ordinal s.order (readField order s b) position
    (Int32.ofInt (n.tdiv dim), Int32.ofInt (n.tmod dim))
  | none => (readLine order s b .inline, readLine order s b .crossline)

/-- The name of a stored header; it is reversed in a big-endian file. -/
def readName (order : ByteOrder) (b : Bytes) : TraceName :=
  let stored := order.arrange (Bytes.slice b nameStart 8)
  Vector.ofFn fun i => stored.getD i 0

/-- Why a coordinate of a stored header cannot be read. -/
def coordinateError? (order : ByteOrder) (s : Settings) (b : Bytes) (c : Coordinate) :
    Option ConversionError :=
  match readCoordinate order s b c with
  | .ok _ => none
  | .error e => some e

/-- The header that 240 bytes hold, at a position of the file. -/
def ofBytes (order : ByteOrder) (s : Settings) (position : Int) (b : Bytes) :
    Except ConversionError TraceHeader :=
  match Coordinate.all.findSome? (coordinateError? order s b) with
  | some e => .error e
  | none =>
    let lines := readLines order s position b
    .ok {
      field := readField order s b
      coordinate := fun c => (readCoordinate order s b c).toOption.getD 0
      inline := lines.1
      crossline := lines.2
      name := readName order b }

/-- The header that bytes hold, if they are as many as a header has. -/
def decode (order : ByteOrder) (s : Settings) (position : Int) (b : Bytes) : Except Error TraceHeader :=
  if b.length = HeaderKind.trace.length then (ofBytes order s position b).mapError .conversion
  else .error (.malformed (.headerLength .trace b.length))

/-- The header with what settings override when it is written. -/
def overridden (s : Settings) (h : TraceHeader) : TraceHeader :=
  match s.coordinateScaling with
  | some n => h.set .coordinateScalar n
  | none => h

/-- The fields of fixed place and the name, with their positions. -/
def fixedPieces (order : ByteOrder) (h : TraceHeader) : List (Nat × Bytes) :=
  TraceField.all.map (fun f => (f.start, f.kind.encode order (h.field f))) ++
    [(nameStart, order.arrange h.name.toList)]

/-- A coordinate with its position. -/
def coordinatePiece (order : ByteOrder) (s : Settings) (h : TraceHeader) (c : Coordinate) :
    Except ConversionError (Nat × Bytes) :=
  (s.coordinateFormat.encode order (h.coordinate c)).map fun b => (c.start s, b)

/-- The line numbers with their positions. -/
def linePieces (order : ByteOrder) (s : Settings) (h : TraceHeader) : List (Nat × Bytes) :=
  [(s.byte .inline, order.store 4 h.inline.toBitVec.toNat),
    (s.byte .crossline, order.store 4 h.crossline.toBitVec.toNat)]

/-- The 240 bytes that hold a header. -/
def toBytes (order : ByteOrder) (s : Settings) (h : TraceHeader) : Except ConversionError Bytes := do
  let coordinates ← Coordinate.all.mapM (coordinatePiece order s h)
  return Bytes.assemble HeaderKind.trace.length
    (fixedPieces order (overridden s h) ++ coordinates ++ linePieces order s h)

end TraceHeader

end SegY
