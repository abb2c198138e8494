import SegY.CoordinateFormat
import SegY.Scaling
import SegY.Vocabulary

/-!
# Settings

How a file is laid out, for reading and for writing: where the geometry fields are, which header values are
overridden, which geometry is imposed, and which traces and samples are of interest.  `Setting` is one
setting with its value, and `Settings.apply` makes it part of the settings or refuses a value that can never
be right, leaving the settings as they were.

An imposed dimension also bounds the lines of its axis, to the lines that a regular survey of that
dimension has; bounds that are set later replace them.
-/

namespace SegY

/-- A point or a direction, as the bit patterns of three doubles. -/
structure Vector3 where
  x : FloatType.float64.Word
  y : FloatType.float64.Word
  z : FloatType.float64.Word
  deriving DecidableEq

/-- How a file is laid out. -/
structure Settings where
  /-- The position of each geometry field in the trace header. -/
  byte : GeometryField → Nat := GeometryField.standardByte
  /-- What counts as the ordinal of a trace. -/
  order : TraceOrder := .position
  /-- The byte order, if it is not to be detected. -/
  endianness : Option ByteOrder := none
  /-- The sample format, if not that of the binary header. -/
  format : Option SampleFormat := none
  /-- The format of coordinates. -/
  coordinateFormat : CoordinateFormat := .int32
  /-- The coordinate scalar, if not that of the trace header. -/
  coordinateScaling : Option Int16 := none
  /-- The kind of all traces, if not that of the trace header. -/
  traceId : Option (Code .traceId) := none
  /-- The unit of depths, for the caller. -/
  depthUnits : Option (Code .measurementSystem) := none
  /-- The measurement system, if not that of the binary header. -/
  coordinateUnits : Option (Code .measurementSystem) := none
  /-- The number of crosslines of an imposed geometry. -/
  dimX : Option Nat := none
  /-- The number of inlines of an imposed geometry. -/
  dimY : Option Nat := none
  /-- The number of samples to which traces are cut. -/
  dimZ : Option Nat := none
  /-- The inlines of interest. -/
  inlineBounds : Option Bounds := none
  /-- The crosslines of interest. -/
  crosslineBounds : Option Bounds := none
  /-- Every `step`-th sample is read. -/
  step : Nat := 1
  /-- The origin of the survey, for the caller. -/
  origin : Option Vector3 := none
  /-- The direction along an inline, for the caller. -/
  u : Option Vector3 := none
  /-- The direction along a crossline, for the caller. -/
  v : Option Vector3 := none
  /-- The time between samples, for the caller. -/
  sampleInterval : Option FloatType.float64.Word := none

/-- One setting with its value. -/
inductive Setting where
  | byte (field : GeometryField) (position : Int32)
  | order (order : TraceOrder)
  | endianness (order : ByteOrder)
  | format (format : SampleFormat)
  | coordinateFormat (format : SampleFormat)
  | coordinateScaling (scaling : FloatType.float64.Word)
  | traceId (id : Code .traceId)
  | depthUnits (units : Code .measurementSystem)
  | coordinateUnits (units : Code .measurementSystem)
  | dimension (d : Dimension) (n : Int32)
  | bounds (axis : Axis) (lowest highest : Int32)
  | step (n : UInt64)
  | origin (p : Vector3)
  | u (p : Vector3)
  | v (p : Vector3)
  | sampleInterval (interval : FloatType.float64.Word)

namespace Settings

instance : Inhabited Settings := ⟨{}⟩

/-- The settings with other bounds on the lines of an axis. -/
def withBounds (s : Settings) (axis : Axis) (b : Bounds) : Settings :=
  match axis with
  | .inline => { s with inlineBounds := some b }
  | .crossline => { s with crosslineBounds := some b }

/-- The bounds on the lines of an axis. -/
def bounds (s : Settings) : Axis → Option Bounds
  | .inline => s.inlineBounds
  | .crossline => s.crosslineBounds

/-- The settings with an imposed dimension. -/
def withDimension (s : Settings) (d : Dimension) (n : Int32) : Settings :=
  match d with
  | .x => { s with dimX := some n.toInt.toNat }.withBounds .crossline ⟨0, n - 1⟩
  | .y => { s with dimY := some n.toInt.toNat }.withBounds .inline ⟨0, n - 1⟩
  | .z => { s with dimZ := some n.toInt.toNat }

/-- The settings with one more setting, unless its value can never be right. -/
def apply (s : Settings) : Setting → Except SettingsError Settings
  | .byte field position =>
    if position < 0 then .error (.negativeByte field position.toInt)
    else if GeometryField.lastByte < position.toInt then .error (.lateByte field position.toInt)
    else .ok { s with byte := fun g => if g = field then position.toInt.toNat else s.byte g }
  | .order order => .ok { s with order := order }
  | .endianness order => .ok { s with endianness := some order }
  | .format format => .ok { s with format := some format }
  | .coordinateFormat format =>
    match CoordinateFormat.ofSampleFormat? format with
    | some c => .ok { s with coordinateFormat := c }
    | none => .error (.coordinateFormat format)
  | .coordinateScaling scaling =>
    match CoordinateScalar.toInt16 .float64 scaling with
    | .ok n => .ok { s with coordinateScaling := some n }
    | .error _ => .error (.scaling (FloatType.float64.meaning scaling))
  | .traceId id => .ok { s with traceId := some id }
  | .depthUnits units => .ok { s with depthUnits := some units }
  | .coordinateUnits units => .ok { s with coordinateUnits := some units }
  | .dimension d n =>
    if d = .z ∧ (maxSamples : Int) < n.toInt then .error (.tooManySamples n.toInt)
    else if 0 < n then .ok (s.withDimension d n)
    else .error (.dimension d n.toInt)
  | .bounds axis lowest highest =>
    if lowest ≤ highest then .ok (s.withBounds axis ⟨lowest, highest⟩)
    else .error (.bounds axis lowest.toInt highest.toInt)
  | .step n => if n = 0 then .error .zeroStep else .ok { s with step := n.toNat }
  | .origin p => .ok { s with origin := some p }
  | .u p => .ok { s with u := some p }
  | .v p => .ok { s with v := some p }
  | .sampleInterval interval => .ok { s with sampleInterval := some interval }

/-- The default settings with these, in order; the first that is refused decides. -/
def ofList (calls : List Setting) : Except SettingsError Settings := calls.foldlM apply {}

/-- Whether a trace on these lines is of interest. -/
def inBounds (s : Settings) (inline crossline : Int32) : Bool :=
  s.inlineBounds.all (·.contains inline) && s.crosslineBounds.all (·.contains crossline)

/-- The number of traces of an imposed geometry. -/
def traceCount? (s : Settings) : Option Nat :=
  match s.dimX, s.dimY with
  | some x, some y => some (x * y)
  | _, _ => none

/-- The largest number of records that are looked at; without a geometry as many as a 64-bit size counts. -/
def maxTraceCount (s : Settings) : Nat := s.traceCount?.getD (UInt64.size - 1)

/-- The largest number of samples that are read of a trace. -/
def maxTraceLength (s : Settings) : Nat := s.dimZ.getD maxSamples

end Settings

end SegY
