import SegY.Geometry
import SegY.SampleFormat

/-!
# What can go wrong

One type of error for each kind of fault, with a constructor for each cause, and `Error` over them all.
The wording of a cause is its `message`, a byte string because it can quote bytes of a file or the name of
one.  `Error.text` is what is shown of it: a message ends before its first NUL.
-/

namespace SegY

/-- A header of fixed length. -/
inductive HeaderKind where
  | label
  | binary
  | trace
  deriving DecidableEq, Repr

namespace HeaderKind

/-- The length of a header in bytes. -/
def length : HeaderKind → Nat
  | label => 128
  | binary => 400
  | trace => 240

/-- The name of a header in messages. -/
def name : HeaderKind → String
  | label => "tape label"
  | binary => "binary header"
  | trace => "trace header"

end HeaderKind

/-- The bytes do not add up. -/
inductive StructureError where
  /-- A header is not as long as its kind is. -/
  | headerLength (kind : HeaderKind) (length : Nat)
  /-- The last trace declares more samples than remain. -/
  | incompleteTrace (index position needed remaining : Nat)
  /-- A file has no room for a trace header after its own headers. -/
  | fileTooShort (size minimum : Nat)
  /-- Fewer extended text headers fit than are declared. -/
  | extendedHeaders (declared fitting : Nat)
  /-- The samples of a trace end after the file does. -/
  | dataBeyondEnd (position size : Nat)
  /-- The samples of a trace are not a whole number of samples. -/
  | unevenData (length width : Nat)
  deriving DecidableEq, Repr

/-- A code without which a file cannot be read is unknown. -/
inductive UnknownCode where
  | sampleFormat (n : Int)
  | fixedLength (n : Int)
  deriving DecidableEq, Repr

/-- A number cannot be converted. -/
inductive ConversionError where
  /-- The target type does not have the number. -/
  | unrepresentable (source : SampleType) (value : Number) (target : SampleType)
  /-- A coordinate multiplier is not above zero. -/
  | multiplier (type : SampleType) (value : Number)
  /-- Hexadecimal floats are only read. -/
  | ibmUnwritable
  | fixedPoint
  | int24
  /-- The format does not have every value of the type. -/
  | lossy (type : SampleType) (format : SampleFormat)
  deriving DecidableEq, Repr

/-- The samples of a trace do not have the declared shape. -/
inductive ShapeError where
  | tooMany (samples : Nat)
  | mismatch (samples binary trace : Nat)
  deriving DecidableEq, Repr

/-- A setting can never be right. -/
inductive SettingsError where
  | negativeByte (field : GeometryField) (byte : Int)
  | lateByte (field : GeometryField) (byte : Int)
  | dimension (d : Dimension) (n : Int)
  | tooManySamples (n : Int)
  | bounds (axis : Axis) (lowest highest : Int)
  | coordinateFormat (format : SampleFormat)
  | scaling (value : Number)
  | zeroStep
  deriving DecidableEq, Repr

/-- A header cannot be written, or its text cannot be read. -/
inductive HeaderError where
  | blockSizeText (text : Bytes)
  | blockSizeRange (n : Nat)
  | textTooLong (size : Nat)
  deriving DecidableEq, Repr

/-- An index is out of range. -/
inductive IndexError where
  | trace (index size : Nat)
  | sample (index samples : Nat)
  /-- A file without traces has no range of a field. -/
  | noTraces (field : GeometryField)
  deriving DecidableEq, Repr

/-- Why the operating system refuses. -/
inductive SystemCause where
  | noSuchFile
  | fileExists
  | fileTooLarge
  | notADirectory
  | isADirectory
  | nameTooLong
  | noSuchDevice
  /-- Any other cause, in the words of the system. -/
  | other (text : String)
  deriving DecidableEq, Repr

/-- A file cannot be used. -/
inductive SystemError where
  | unopened (name : Bytes) (cause : SystemCause)
  /-- What was opened has no bytes to look at. -/
  | unmapped (name : Bytes) (cause : SystemCause)
  | uncreated (name : Bytes) (cause : SystemCause)
  | headersUnwritten (name : Bytes) (cause : SystemCause)
  | traceUnwritten (index : Nat) (cause : SystemCause)
  /-- A trace is appended after the writer was closed. -/
  | closed
  /-- A part of a trace could not be removed from the end of the file. -/
  | partialTrace (position : Nat)
  deriving DecidableEq, Repr

/-- A read that has no answer: sizes are 64-bit numbers, and one that wraps can lead outside the file, or
nowhere. -/
inductive WrapError where
  /-- The range lies outside the file although its end, wrapped, lies inside. -/
  | outside (start length : Nat)
  /-- The distance from one sample to the next wraps to zero. -/
  | noProgress
  deriving DecidableEq, Repr

/-- Everything that can go wrong. -/
inductive Error where
  | malformed (e : StructureError)
  | unknownCode (e : UnknownCode)
  | conversion (e : ConversionError)
  | shape (e : ShapeError)
  | settings (e : SettingsError)
  | header (e : HeaderError)
  | index (e : IndexError)
  | system (e : SystemError)
  | wrapped (e : WrapError)
  deriving DecidableEq, Repr

namespace StructureError

/-- The wording. -/
def message : StructureError → String
  | headerLength kind length =>
    s!"{kind.name} length should be {kind.length} but is {length}"
  | incompleteTrace index position needed remaining =>
    s!"last trace incomplete: trace {index} at byte {position} needs {needed} bytes, " ++
      s!"but only {remaining} remain"
  | fileTooShort size minimum => s!"file too short: size (which is {size}) <= {minimum}"
  | extendedHeaders declared fitting =>
    s!"file too short for extended headers: {declared} declared, but only {fitting} fit"
  | dataBeyondEnd position size =>
    s!"trace data ends at byte {position}, but file size is {size}"
  | unevenData length width =>
    s!"trace data length (which is {length}) is not divisible by sample size (which is {width})"

end StructureError

namespace UnknownCode

/-- The wording. -/
def message : UnknownCode → String
  | sampleFormat n => s!"could not parse source ({n}) to sample format"
  | fixedLength n => s!"could not parse source ({n}) to fixed length trace flag"

end UnknownCode

/-- The text of a value in messages: integers in decimal, floats with six places. -/
def SampleType.valueText : SampleType → Number → String
  | integer _, n => toString (n.truncate?.getD 0)
  | floating _, n => n.fixedText

namespace ConversionError

/-- The wording. -/
def message : ConversionError → String
  | unrepresentable source value target =>
    s!"value (which is {source.valueText value}) cannot be represented as {target.name}"
  | multiplier type value => s!"coordinate multiplier (which is {type.valueText value}) <= 0"
  | ibmUnwritable => "ibm floats cannot be written from ieee values"
  | fixedPoint => "fixed-point floats with gain are obsolete and not implemented"
  | int24 => "24-bit integers are not implemented"
  | lossy type format =>
    s!"data of type '{type.name}' cannot be written losslessly as '{format.description}'"

end ConversionError

/-- The largest number of samples in a trace. -/
def maxSamples : Nat := 65535

namespace ShapeError

/-- The wording. -/
def message : ShapeError → String
  | tooMany samples => s!"data length (which is {samples}) > {maxSamples}"
  | mismatch samples binary trace =>
    s!"data length is {samples}, but was declared as {binary} (binary header) or " ++
      s!"{trace} (trace header)."

end ShapeError

namespace SettingsError

/-- The wording. -/
def message : SettingsError → String
  | negativeByte field byte => s!"settings::with: {field.byteName} (which is {byte}) < 0"
  | lateByte field byte =>
    s!"settings::with: {field.byteName} (which is {byte}) > {GeometryField.lastByte}"
  | dimension d n =>
    s!"settings::override_{d.name}: dimension (which is {n}) must be positive"
  | tooManySamples n =>
    s!"settings::override_{Dimension.z.name}: dimension (which is {n}) > {maxSamples}"
  | bounds axis lowest highest =>
    s!"settings::{axis.name}_bounds: min (which is {lowest}) > max (which is {highest})"
  | coordinateFormat format =>
    "settings::override_coordinate_format: " ++
      s!"coordinates must be stored as a 4-byte format, was {format.description}"
  | scaling value =>
    s!"settings::override_coordinate_scaling: {value.fixedText} is outside of the scaling range"
  | zeroStep => "settings::step: step must be at least 1"

end SettingsError

namespace HeaderError

/-- The wording. -/
def message : HeaderError → Bytes
  | blockSizeText text =>
    .ofText "invalid tape label: max block size '" ++ text ++ .ofText "' is not a number"
  | blockSizeRange n =>
    .ofText s!"tape label max block size (which is {n}) does not fit in 10 digits"
  | textTooLong size => .ofText s!"text header too long: size (which is {size}) > 3200"

end HeaderError

namespace IndexError

/-- The wording. -/
def message : IndexError → String
  | trace index size => s!"trace_bounds_check: n (which is {index}) >= size() (which is {size})"
  | sample index samples =>
    s!"sample_bounds_check: n (which is {index}) >= samples (which is {samples})"
  | noTraces field => s!"{field.name}_extremes: file has no traces"

end IndexError

namespace SystemCause

/-- The wording. -/
def message : SystemCause → String
  | noSuchFile => "No such file or directory"
  | fileExists => "File exists"
  | fileTooLarge => "File too large"
  | notADirectory => "Not a directory"
  | isADirectory => "Is a directory"
  | nameTooLong => "File name too long"
  | noSuchDevice => "No such device"
  | other text => text

end SystemCause

namespace SystemError

/-- What was tried with a file, and why it failed. -/
def attempt (what : String) (name : Bytes) (cause : SystemCause) : Bytes :=
  .ofText (what ++ " '") ++ name ++ .ofText s!"': {cause.message}"

/-- The wording. -/
def message : SystemError → Bytes
  | unopened name cause => attempt "unable to open" name cause
  | unmapped name cause => attempt "unable to mmap" name cause
  | uncreated name cause => attempt "unable to create" name cause
  | headersUnwritten name cause => attempt "unable to write headers to" name cause
  | traceUnwritten index cause => .ofText s!"unable to write trace {index}: {cause.message}"
  | closed => .ofText "writer: append to closed file"
  | partialTrace position =>
    .ofText s!"writer: a failed append left a partial trace at byte {position}"

end SystemError

namespace WrapError

/-- The wording. -/
def message : WrapError → String
  | outside start length => s!"{length} bytes from byte {start} on are outside of the file"
  | noProgress => "the step wraps to zero bytes"

end WrapError

namespace Error

/-- The wording. -/
def message : Error → Bytes
  | malformed e => .ofText e.message
  | unknownCode e => .ofText e.message
  | conversion e => .ofText e.message
  | shape e => .ofText e.message
  | settings e => .ofText e.message
  | header e => e.message
  | index e => .ofText e.message
  | system e => e.message
  | wrapped e => .ofText e.message

/-- What is shown of the message: it ends before its first NUL. -/
def text (e : Error) : Bytes := e.message.untilNul

end Error

end SegY
