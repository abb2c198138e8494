import SegY.FieldKind
import SegY.Settings

/-!
# The binary header

The 400 bytes that describe a file.  Most fields have a fixed place, and any bytes spell a value
(`BinaryField`).  Without the sample format and the flag of fixed-length traces a file cannot be read, so
unknown codes of these two are errors, and that of the format comes first.

The byte order is no field.  Four marker bytes tell it: they hold 1, 2, 3, 4 in a little-endian file, and
every other file is big-endian.  Bytes that belong to no field are written as zeros.
-/

namespace SegY

/-- A field of fixed place that any bytes spell. -/
inductive BinaryField where
  | jobId
  | line
  | reel
  | traces
  | auxiliaryTraces
  | interval
  | recordedInterval
  | samples
  | recordedSamples
  | ensembleFold
  | sorting
  | verticalSum
  | sweepFrequencyStart
  | sweepFrequencyEnd
  | sweepLength
  | sweepType
  | sweepChannel
  | sweepTaperStart
  | sweepTaperEnd
  | taperType
  | correlated
  | binaryGainRecovery
  | amplitudeRecovery
  | measurementSystem
  | impulsePolarity
  | vibratoryPolarity
  | majorRevision
  | minorRevision
  | extendedHeaders
  | timeBasis
  deriving DecidableEq, Repr

namespace BinaryField

/-- All fields, by position. -/
def all : List BinaryField :=
  [jobId, line, reel, traces, auxiliaryTraces, interval, recordedInterval, samples, recordedSamples,
    ensembleFold, sorting, verticalSum, sweepFrequencyStart, sweepFrequencyEnd, sweepLength, sweepType,
    sweepChannel, sweepTaperStart, sweepTaperEnd, taperType, correlated, binaryGainRecovery,
    amplitudeRecovery, measurementSystem, impulsePolarity, vibratoryPolarity, majorRevision,
    minorRevision, extendedHeaders, timeBasis]

/-- Where a field is, and what it holds. -/
def place : BinaryField → FieldPlace
  | jobId => ⟨0, .uint32⟩
  | line => ⟨4, .uint32⟩
  | reel => ⟨8, .uint32⟩
  | traces => ⟨12, .uint16⟩
  | auxiliaryTraces => ⟨14, .uint16⟩
  | interval => ⟨16, .uint16⟩
  | recordedInterval => ⟨18, .uint16⟩
  | samples => ⟨20, .uint16⟩
  | recordedSamples => ⟨22, .uint16⟩
  | ensembleFold => ⟨26, .uint16⟩
  | sorting => ⟨28, .code .traceSorting⟩
  | verticalSum => ⟨30, .uint16⟩
  | sweepFrequencyStart => ⟨32, .uint16⟩
  | sweepFrequencyEnd => ⟨34, .uint16⟩
  | sweepLength => ⟨36, .uint16⟩
  | sweepType => ⟨38, .code .sweepType⟩
  | sweepChannel => ⟨40, .uint16⟩
  | sweepTaperStart => ⟨42, .uint16⟩
  | sweepTaperEnd => ⟨44, .uint16⟩
  | taperType => ⟨46, .code .taperType⟩
  | correlated => ⟨48, .code .correlated⟩
  | binaryGainRecovery => ⟨50, .code .gainRecovered⟩
  | amplitudeRecovery => ⟨52, .code .amplitudeRecovery⟩
  | measurementSystem => ⟨54, .code .measurementSystem⟩
  | impulsePolarity => ⟨56, .code .impulsePolarity⟩
  | vibratoryPolarity => ⟨58, .code .vibratoryPolarity⟩
  | majorRevision => ⟨300, .uint8⟩
  | minorRevision => ⟨301, .uint8⟩
  | extendedHeaders => ⟨306, .uint32⟩
  | timeBasis => ⟨310, .code .timeBasis⟩

/-- The position of the first byte. -/
def start (f : BinaryField) : Nat := f.place.start

/-- What the bytes hold. -/
def kind (f : BinaryField) : FieldKind := f.place.kind

/-- The values of a field. -/
abbrev Value (f : BinaryField) : Type := f.kind.Value

/-- The value of a field that was never set: revision 2.0, and otherwise zero. -/
def default : (f : BinaryField) → f.Value
  | majorRevision => (2 : UInt8)
  | f => f.kind.zero

theorem mem_all (f : BinaryField) : f ∈ all := by
  cases f <;> decide

end BinaryField

/-- A binary header. -/
structure BinaryHeader where
  /-- The fields of fixed place that any bytes spell. -/
  field : (f : BinaryField) → f.Value
  /-- How samples are stored. -/
  format : SampleFormat
  /-- Whether all traces are as long as the header says. -/
  fixedLength : Bool
  /-- The byte order of the whole file. -/
  order : ByteOrder

namespace BinaryHeader

/-- A header of which nothing is set: a big-endian file of single precision floats. -/
def blank : BinaryHeader where
  field := BinaryField.default
  format := .ieeeFloat
  fixedLength := false
  order := .big

instance : Inhabited BinaryHeader := ⟨blank⟩

/-- The header with another value of a field. -/
def set (h : BinaryHeader) (f : BinaryField) (x : f.Value) : BinaryHeader :=
  { h with field := fun g => if e : f = g then e ▸ x else h.field g }

/-- The number of samples of a trace. -/
def samples (h : BinaryHeader) : UInt16 := h.field .samples

/-- The time between samples, in microseconds. -/
def interval (h : BinaryHeader) : UInt16 := h.field .interval

/-- The revision of the standard, as its major and its minor number. -/
def revision (h : BinaryHeader) : UInt8 × UInt8 := (h.field .majorRevision, h.field .minorRevision)

/-- The number of extended text headers. -/
def extendedHeaders (h : BinaryHeader) : UInt32 := h.field .extendedHeaders

/-- The header with another number of samples. -/
def withSamples (h : BinaryHeader) (n : Nat) : BinaryHeader := h.set .samples (UInt16.ofNat n)

/-- Whether two headers agree in every field. -/
def beq (h k : BinaryHeader) : Bool :=
  BinaryField.all.all (fun f => h.field f == k.field f) && h.format == k.format &&
    h.fixedLength == k.fixedLength && h.order == k.order

instance : BEq BinaryHeader := ⟨beq⟩

/-- The position of the sample format. -/
def formatStart : Nat := 24

/-- The position of the bytes that tell the byte order. -/
def markerStart : Nat := 96

/-- The position of the flag of fixed-length traces. -/
def flagStart : Nat := 302

/-- The marker of a byte order. -/
def marker : ByteOrder → Bytes
  | .little => [1, 2, 3, 4]
  | .big => [4, 3, 2, 1]

/-- The byte order that the marker tells. -/
def detectOrder (b : Bytes) : ByteOrder :=
  if Bytes.slice b markerStart 4 = marker .little then .little else .big

/-- The sample format of a code. -/
def formatOfCode (n : Int) : Except UnknownCode SampleFormat :=
  match SampleFormat.ofCode? n with
  | some f => .ok f
  | none => .error (.sampleFormat n)

/-- The flag of fixed-length traces of a code. -/
def flagOfCode (n : Int) : Except UnknownCode Bool :=
  if n = 0 then .ok false
  else if n = 1 then .ok true
  else .error (.fixedLength n)

/-- A field that settings override. -/
def override (s : Settings) : (f : BinaryField) → Option f.Value
  | .measurementSystem => s.coordinateUnits
  | _ => none

/-- A field of a stored header, or what settings override it with. -/
def readField (order : ByteOrder) (s : Settings) (b : Bytes) (f : BinaryField) : f.Value :=
  (override s f).getD (f.kind.decode order (Bytes.slice b f.start f.kind.width))

/-- The sample format of a stored header, or what settings override it with. -/
def readFormat (order : ByteOrder) (s : Settings) (b : Bytes) : Except UnknownCode SampleFormat :=
  match s.format with
  | some f => .ok f
  | none => formatOfCode (order.load (Bytes.slice b formatStart 2))

/-- The header that 400 bytes hold. -/
def ofBytes (s : Settings) (b : Bytes) : Except UnknownCode BinaryHeader := do
  let order := s.endianness.getD (detectOrder b)
  let format ← readFormat order s b
  let fixedLength ← flagOfCode (order.load (Bytes.slice b flagStart 2))
  return { field := readField order s b, format, fixedLength, order }

/-- The header that bytes hold, if they are as many as a header has. -/
def decode (s : Settings) (b : Bytes) : Except Error BinaryHeader :=
  if b.length = HeaderKind.binary.length then (ofBytes s b).mapError .unknownCode
  else .error (.malformed (.headerLength .binary b.length))

/-- The parts of a header with their positions. -/
def pieces (h : BinaryHeader) : List (Nat × Bytes) :=
  BinaryField.all.map (fun f => (f.start, f.kind.encode h.order (h.field f))) ++
    [(formatStart, h.order.store 2 h.format.code), (markerStart, marker h.order),
      (flagStart, h.order.store 2 h.fixedLength.toNat)]

/-- The 400 bytes that hold a header. -/
def toBytes (h : BinaryHeader) : Bytes := Bytes.assemble HeaderKind.binary.length h.pieces

end BinaryHeader

end SegY
