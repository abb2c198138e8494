import SegY.Directory
import SegY.Sample
import SegY.Scan
import SegY.TapeLabel

/-!
# Writing a file

A `Writer` makes a new file in a directory, with its headers, and then appends one trace after the other.
Samples are written in the format and byte order of the binary header, and trace headers are laid out as
the settings say.

A trace is encoded as a whole before anything of it is written (`Writer.encode`), and what is written of a
trace that does not fit is cut away again (`Writer.commit`).  So an append that fails leaves the file as it
was.  Only if the cut fails too does the writer refuse all further traces.
-/

namespace SegY

/-- Where a trace is in a file, in bytes. -/
structure Placement where
  index : Nat
  start : Nat
  /-- The position of the samples. -/
  dataStart : Nat
  /-- The length of the trace with its header and what is between it and the samples. -/
  length : Nat
  deriving DecidableEq, Repr

/-- A file that is being written. -/
structure Writer where
  /-- Where the file is. -/
  location : Location
  settings : Settings
  binary : BinaryHeader
  /-- Whether the file is still open. -/
  isOpen : Bool
  /-- The end of what was written. -/
  position : Nat
  /-- Whether a part of a trace is left after it. -/
  broken : Bool
  /-- The traces that were written. -/
  traces : List Trace
  /-- Where they are, by index. -/
  placements : List (Nat × Placement)

/-- A trace to append. -/
structure NewTrace where
  header : TraceHeader
  /-- What is written between the trace header and the samples. -/
  extended : Bytes
  /-- The type of the samples. -/
  type : SampleType
  samples : List type.Word
  /-- Whether the samples have to be stored exactly. -/
  lossless : Bool

namespace Writer

/-- The bytes of a label, if there is one. -/
def labelBytes : Option TapeLabel → Except HeaderError Bytes
  | some l => l.toBytes
  | none => .ok []

/-- The headers at the start of a file. -/
def headers (text : Bytes) (binary : BinaryHeader) (label : Option TapeLabel) :
    Except HeaderError Bytes :=
  if TextHeader.size < text.length then .error (.textTooLong text.length)
  else (labelBytes label).map fun start => start ++ TextHeader.pad text ++ binary.toBytes

/-- Makes a new file with its headers.  All headers are encoded before the file is made. -/
def create (d : Directory) (name : Bytes) (s : Settings) (text : Bytes) (binary : BinaryHeader)
    (label : Option TapeLabel) : Directory × Except Error Writer :=
  match headers text binary label with
  | .error e => (d, .error (.header e))
  | .ok head =>
    match d.create name with
    | .error e => (d, .error (.system e))
    | .ok (d, location) =>
      match d.write location 0 head with
      | (d, true) =>
        (d, .ok {
          location, settings := s, binary, isOpen := true, position := head.length, broken := false
          traces := [], placements := [] })
      | (d, false) => (d, .error (.system (.headersUnwritten name .fileTooLarge)))

/-- The number of traces that were written. -/
def size (w : Writer) : Nat := w.traces.length

/-- Refuses a number of samples that is too large or that no header declares. -/
def checkShape (w : Writer) (header : TraceHeader) (samples : Nat) : Except ShapeError Unit :=
  if maxSamples < samples then .error (.tooMany samples)
  else if samples = w.binary.samples.toNat ∨ samples = header.samples.toNat then .ok ()
  else .error (.mismatch samples w.binary.samples.toNat header.samples.toNat)

/-- How to write a sample of a new trace. -/
def encoder (w : Writer) (t : NewTrace) :
    Except ConversionError (ByteOrder → t.type.Word → Except ConversionError Bytes) :=
  if t.lossless then t.type.losslessEncoder w.binary.format else t.type.encoder w.binary.format

/-- The bytes of a new trace: what is before the samples, and the samples. -/
def encode (w : Writer) (t : NewTrace) : Except Error (Bytes × Bytes) := do
  let encodeSample ← (w.encoder t).mapError .conversion
  (w.checkShape t.header t.samples.length).mapError .shape
  let header ← (t.header.toBytes w.binary.order w.settings).mapError .conversion
  let samples ← (t.samples.mapM (encodeSample w.binary.order)).mapError .conversion
  return (header ++ t.extended, samples.flatten)

/-- The writer after a trace of these bytes. -/
def extended (w : Writer) (header : TraceHeader) (head samples : Bytes) : Writer :=
  let dataStart := w.position + head.length
  let length := head.length + samples.length
  { w with
    position := w.position + length
    traces := w.traces ++ [⟨header, dataStart, samples.length⟩]
    placements := w.placements ++ [(w.size, ⟨w.size, w.position, dataStart, length⟩)] }

/-- Writes the bytes of a trace at the end of the file, or leaves the file as it was. -/
def commit (w : Writer) (d : Directory) (header : TraceHeader) (head samples : Bytes) :
    Directory × Writer × Except SystemError Trace :=
  if !w.isOpen then (d, w, .error .closed)
  else if w.broken then (d, w, .error (.partialTrace w.position))
  else
    match d.write w.location w.position (head ++ samples) with
    | (d, true) =>
      (d, w.extended header head samples, .ok ⟨header, w.position + head.length, samples.length⟩)
    | (d, false) =>
      let (d, whole) := d.truncate w.location w.position
      (d, { w with broken := !whole }, .error (.traceUnwritten w.size .fileTooLarge))

/-- Appends a trace. -/
def append (w : Writer) (d : Directory) (t : NewTrace) : Directory × Writer × Except Error Trace :=
  match w.encode t with
  | .error e => (d, w, .error e)
  | .ok (head, samples) =>
    let (d, w, result) := w.commit d t.header head samples
    (d, w, result.mapError .system)

/-- A header with the coordinates of its ensemble scaled into it. -/
def scaledHeader {t : SampleType} (header : TraceHeader) (c : CoordinateScalar t) (x y : t.Word) :
    Except ConversionError TraceHeader := do
  let cdpX ← c.scaleToInt32 x
  let cdpY ← c.scaleToInt32 y
  return ((header.set .coordinateScalar c.scalar).setCoordinate .cdpX cdpX).setCoordinate .cdpY cdpY

/-- Appends a trace, with the coordinates of its ensemble scaled into its header. -/
def appendScaled {t : SampleType} (w : Writer) (d : Directory) (new : NewTrace)
    (c : CoordinateScalar t) (x y : t.Word) : Directory × Writer × Except Error Trace :=
  match scaledHeader new.header c x y with
  | .error e => (d, w, .error (.conversion e))
  | .ok header => w.append d { new with header := header }

/-- Closes the file. -/
def close (w : Writer) : Writer := { w with isOpen := false }

end Writer

end SegY
