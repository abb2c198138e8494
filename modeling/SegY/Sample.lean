import SegY.Conversion
import SegY.Ibm

/-!
# Stored samples

Reading a sample gives a single precision float from any readable format (`SampleFormat.decoder`).  Writing
takes a value of a sample type to any writable one (`SampleType.encoder`): range checked, otherwise lossy.
Writing losslessly asks first whether the format is among those that hold the type exactly
(`SampleType.losslessFormats`).

A reader or writer is chosen once for a format, before any sample is seen, and that choice can fail.
-/

namespace SegY

/-- A single precision float, as its bit pattern. -/
abbrev Float32Word := FloatType.float32.Word

/-- How to read a sample of the format. -/
def SampleFormat.decoder (f : SampleFormat) :
    Except ConversionError (ByteOrder → Bytes → Float32Word) :=
  match f.storage with
  | .ibm => .ok fun _ b => Ibm.toFloat b
  | .native t => .ok fun order b => t.toFloat .float32 (t.load order b)
  | .fixedPoint => .error .fixedPoint
  | .int24 => .error .int24

namespace SampleType

/-- How to write a value of the type in the format. -/
def encoder (t : SampleType) (f : SampleFormat) :
    Except ConversionError (ByteOrder → t.Word → Except ConversionError Bytes) :=
  match f.storage with
  | .ibm => .error .ibmUnwritable
  | .native target => .ok fun order w => (convert target t w).map (target.store order)
  | .fixedPoint => .error .fixedPoint
  | .int24 => .error .int24

/-- The formats in which every value of the type can be written exactly: its own, wider integers of its
range, and floats whose significand holds all its digits. -/
def losslessFormats : SampleType → List SampleFormat
  | floating .float32 => [.ieeeFloat, .ieeeDouble]
  | floating .float64 => [.ieeeDouble]
  | integer .int64 => [.int64]
  | integer .int32 => [.int32, .ieeeDouble, .int64]
  | integer .int16 => [.int32, .int16, .ieeeFloat, .ieeeDouble, .int64]
  | integer .int8 => [.int32, .int16, .ieeeFloat, .ieeeDouble, .int8, .int64]
  | integer .uint64 => [.uint64]
  | integer .uint32 => [.int64, .uint32, .uint64]
  | integer .uint16 => [.int32, .ieeeDouble, .int64, .uint32, .uint16, .uint64]
  | integer .uint8 =>
    [.int32, .int16, .ieeeFloat, .ieeeDouble, .int64, .uint32, .uint16, .uint64, .uint8]

/-- Whether every value of the type can be written exactly in the format. -/
def isLossless (t : SampleType) (f : SampleFormat) : Bool := t.losslessFormats.contains f

/-- How to write a value of the type exactly in the format. -/
def losslessEncoder (t : SampleType) (f : SampleFormat) :
    Except ConversionError (ByteOrder → t.Word → Except ConversionError Bytes) :=
  if t.isLossless f then t.encoder f else .error (.lossy t f)

end SampleType

end SegY
