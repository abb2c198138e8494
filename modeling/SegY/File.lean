import SegY.Sample
import SegY.Scan
import SegY.TapeLabel

/-!
# Reading a file

A `File` is a file that was scanned once: its headers, and the traces that are of interest.
`File.ofBytes` makes one, or says what is wrong: the file is too short for its headers, or else the first
fault in the order of the file.

Samples are read on demand, of a trace of the file or of any other range of bytes.  `File.read` gives them as
floats, every `step`-th one; `File.readBytes` gives the same samples as they are stored; `File.readPoint`
and `File.readPointBytes` give a single one.  Sizes are 64-bit numbers, so the end of a range wraps.
-/

namespace SegY

/-- A file that was opened for reading. -/
structure File where
  /-- The bytes of the file. -/
  image : Image
  settings : Settings
  /-- The tape label, if there is one. -/
  label : Option TapeLabel
  /-- The text header. -/
  text : Bytes
  /-- The extended text headers. -/
  extended : List Bytes
  binary : BinaryHeader
  traces : List Trace
  report : ScanReport

namespace File

/-- The first of the sizes that do not fit into 64 bits. -/
def sizeLimit : Nat := UInt64.size

/-- The tape label at the start of a file. -/
def readLabel (image : Image) (labelled : Bool) : Except Error (Option TapeLabel) :=
  if labelled then
    ((TapeLabel.ofBytes (image.slice 0 HeaderKind.label.length)).mapError .header).map some
  else .ok none

/-- Consecutive text headers from a position on. -/
def readTexts (image : Image) (pos count : Nat) : List Bytes :=
  (List.range count).map fun i =>
    TextHeader.decode (image.slice (pos + i * TextHeader.size) TextHeader.size)

/-- The position of the text header. -/
def textStart (labelled : Bool) : Nat := if labelled then HeaderKind.label.length else 0

/-- The position of the binary header. -/
def binaryStart (labelled : Bool) : Nat := textStart labelled + TextHeader.size

/-- The position of what follows the binary header. -/
def extendedStart (labelled : Bool) : Nat := binaryStart labelled + HeaderKind.binary.length

/-- The length that a file has to exceed. -/
def minimumSize (labelled : Bool) : Nat := extendedStart labelled + HeaderKind.trace.length

/-- How many extended text headers fit into a file. -/
def extendedFitting (image : Image) (labelled : Bool) : Nat :=
  (image.size - extendedStart labelled) / TextHeader.size

/-- The binary header of a file. -/
def readBinary (image : Image) (labelled : Bool) (s : Settings) : Except UnknownCode BinaryHeader :=
  BinaryHeader.ofBytes s (image.slice (binaryStart labelled) HeaderKind.binary.length)

/-- Finds the traces of a file whose label and binary header were read. -/
def withTraces (image : Image) (labelled : Bool) (s : Settings) (label : Option TapeLabel)
    (binary : BinaryHeader) : Except Error File :=
  let count := binary.extendedHeaders.toNat
  let fitting := extendedFitting image labelled
  let start := extendedStart labelled
  if fitting < count then .error (.malformed (.extendedHeaders count fitting))
  else
    (scan image (start + count * TextHeader.size) binary s).map fun found => {
      image, settings := s, label
      text := TextHeader.decode (image.slice (textStart labelled) TextHeader.size)
      extended := readTexts image start count
      binary := found.binary, traces := found.traces, report := found.report }

/-- Opens a file in memory. -/
def ofImage (s : Settings) (image : Image) : Except Error File :=
  let labelled := TapeLabel.isPresent image
  if image.size ≤ minimumSize labelled then
    .error (.malformed (.fileTooShort image.size (minimumSize labelled)))
  else do
    let label ← readLabel image labelled
    let binary ← (readBinary image labelled s).mapError .unknownCode
    withTraces image labelled s label binary

/-- Opens a file of these bytes. -/
def ofBytes (s : Settings) (b : Bytes) : Except Error File := ofImage s b.toArray

/-- The number of traces. -/
def size (f : File) : Nat := f.traces.length

/-- The text header in lines. -/
def textLines (f : File) : List Bytes := TextHeader.lines f.text

/-- The trace of an index. -/
def trace (f : File) (i : Nat) : Except IndexError Trace :=
  match f.traces[i]? with
  | some t => .ok t
  | none => .error (.trace i f.size)

/-- The index of the trace on two lines; of several it is the last. -/
def find? (f : File) (crossline inline : Int32) : Option Nat :=
  ((f.traces.zipIdx.filter fun (t, _) =>
    t.header.crossline == crossline && t.header.inline == inline).getLast?).map (·.2)

/-- The width of a sample in bytes. -/
def width (f : File) : Nat := f.binary.format.width

/-- The number of samples in a range of bytes. -/
def samples (f : File) (t : Trace) : Nat := t.length / f.width

/-- The end of a range of bytes, as a 64-bit number. -/
def dataEnd (t : Trace) : Nat := (t.start + t.length) % sizeLimit

/-- Refuses a range of bytes that ends after the file does. -/
def checkRange (f : File) (t : Trace) : Except Error Unit :=
  if f.image.size < dataEnd t then
    .error (.malformed (.dataBeyondEnd (dataEnd t) f.image.size))
  else .ok ()

/-- Refuses a range of bytes that is not a whole number of samples. -/
def checkWhole (f : File) (t : Trace) : Except Error Unit :=
  if t.length % f.width = 0 then .ok ()
  else .error (.malformed (.unevenData t.length f.width))

/-- How many of `total` things are taken if every `step`-th one is, from the first on. -/
def countEvery (step total : Nat) : Nat := (total + step - 1) / step

/-- So many pieces of the file, each at most `width` bytes long, one every `stride` bytes of a range.
Pieces outside the file cannot be had. -/
def pieces (f : File) (t : Trace) (width stride count : Nat) : Except Error (List Bytes) :=
  let piece (k : Nat) : Nat × Nat := (t.start + k * stride, min width (t.length - k * stride))
  let last := piece (count - 1)
  if 0 < count ∧ f.image.size < last.1 + last.2 then .error (.wrapped (.outside t.start t.length))
  else .ok ((List.range count).map fun k => f.image.slice (piece k).1 (piece k).2)

/-- Every `step`-th sample as a float. -/
def read (f : File) (t : Trace) : Except Error (List Float32Word) := do
  f.checkRange t
  f.checkWhole t
  let decode ← f.binary.format.decoder.mapError .conversion
  let step := f.settings.step
  let stored ← f.pieces t f.width (step * f.width) (countEvery step (f.samples t))
  return stored.map (decode f.binary.order)

/-- The distance in bytes from one sample that is read to the next, as a 64-bit number.  It can wrap, so
that other samples are taken, or none is ever the last. -/
def stride (f : File) : Nat := f.settings.step * f.width % sizeLimit

/-- Every `step`-th sample as it is stored. -/
def readBytes (f : File) (t : Trace) : Except Error Bytes := do
  f.checkRange t
  if f.settings.step = 1 then return (← f.pieces t t.length t.length 1).flatten
  else if f.stride = 0 ∧ 0 < t.length then .error (.wrapped .noProgress)
  else return (← f.pieces t f.width f.stride (countEvery f.stride t.length)).flatten

/-- Refuses the index of a sample that a range of bytes does not have. -/
def checkSample (f : File) (t : Trace) (n : Nat) : Except Error Unit :=
  if f.samples t ≤ n then .error (.index (.sample n (f.samples t))) else .ok ()

/-- A single sample as it is stored. -/
def readPointBytes (f : File) (t : Trace) (n : Nat) : Except Error Bytes := do
  f.checkSample t n
  f.checkRange t
  let start := t.start + n * f.width
  if f.image.size < start + f.width then .error (.wrapped (.outside t.start t.length))
  else return f.image.slice start f.width

/-- A single sample as a float. -/
def readPoint (f : File) (t : Trace) (n : Nat) : Except Error Float32Word := do
  let b ← f.readPointBytes t n
  let decode ← f.binary.format.decoder.mapError .conversion
  return decode f.binary.order b

/-- The indices of the smallest and of the largest value of a geometry field: of several smallest the first,
of several largest the last. -/
def extremes (f : File) (g : GeometryField) : Except IndexError (Nat × Nat) :=
  match f.traces.map (fun t => t.header.geometry g) with
  | [] => .error (.noTraces g)
  | x :: rest =>
    let later := rest.zipIdx 1
    let lowest := later.foldl (fun best y => if y.1 < best.1 then y else best) (x, 0)
    let highest := later.foldl (fun best y => if best.1 ≤ y.1 then y else best) (x, 0)
    .ok (lowest.2, highest.2)

end File

end SegY
