import SegY.Conversion
import SegY.Ibm

/-!
# Coordinate formats

Coordinates are 32-bit integers in memory.  A file stores them in one of four formats of four bytes.  From
the floats and from unsigned integers not every stored number can be read, and a coordinate below zero
cannot be written as an unsigned integer.  Hexadecimal floats are big-endian in every file, and are only
read.
-/

namespace SegY

/-- The formats in which coordinates can be stored. -/
inductive CoordinateFormat where
  | ibmFloat
  | ieeeFloat
  | int32
  | uint32
  deriving DecidableEq, Repr

namespace CoordinateFormat

/-- The coordinate format that a sample format stands for. -/
def ofSampleFormat? : SampleFormat → Option CoordinateFormat
  | .ibmFloat => some ibmFloat
  | .ieeeFloat => some ieeeFloat
  | .int32 => some int32
  | .uint32 => some uint32
  | _ => none

/-- The coordinate format as a sample format. -/
def sampleFormat : CoordinateFormat → SampleFormat
  | ibmFloat => .ibmFloat
  | ieeeFloat => .ieeeFloat
  | int32 => .int32
  | uint32 => .uint32

theorem ofSampleFormat?_eq_some_iff {f : SampleFormat} {c : CoordinateFormat} :
    ofSampleFormat? f = some c ↔ f = c.sampleFormat := by
  cases f <;> cases c <;> decide

/-- The coordinate that four bytes hold. -/
def decode (f : CoordinateFormat) (order : ByteOrder) (b : Bytes) : Except ConversionError Int32 :=
  match f with
  | int32 => .ok (Int32.ofNat (order.load b))
  | uint32 => (SampleType.convert .int32 .uint32 (SampleType.uint32.load order b)).map Int32.ofBitVec
  | ieeeFloat =>
    (SampleType.convert .int32 .float32 (SampleType.float32.load order b)).map Int32.ofBitVec
  | ibmFloat => (SampleType.convert .int32 .float32 (Ibm.toFloat b)).map Int32.ofBitVec

/-- The four bytes that hold a coordinate. -/
def encode (f : CoordinateFormat) (order : ByteOrder) (n : Int32) : Except ConversionError Bytes :=
  match f with
  | int32 => .ok (order.store 4 n.toBitVec.toNat)
  | uint32 => (SampleType.convert .uint32 .int32 n.toBitVec).map (SampleType.uint32.store order)
  | ieeeFloat => (SampleType.convert .float32 .int32 n.toBitVec).map (SampleType.float32.store order)
  | ibmFloat => .error .ibmUnwritable

end CoordinateFormat

end SegY
