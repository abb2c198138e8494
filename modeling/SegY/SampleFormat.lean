import SegY.SampleType

/-!
# Sample formats

The fourteen formats in which a file can store its samples, by their codes in the binary header.
`SampleFormat.storage` says what a stored sample is: for ten of them a value of a sample type.  Hexadecimal
floats are only read, and fixed-point floats and 24-bit integers are known but neither read nor written.
-/

namespace SegY

/-- How a file stores its samples. -/
inductive SampleFormat where
  | ibmFloat
  | int32
  | int16
  /-- Obsolete: a 32-bit fixed-point float with a gain code. -/
  | fixedPoint
  | ieeeFloat
  | ieeeDouble
  | int24
  | int8
  | int64
  | uint32
  | uint16
  | uint64
  | uint24
  | uint8
  deriving DecidableEq, Repr

/-- What a stored sample is. -/
inductive Storage where
  /-- A hexadecimal float. -/
  | ibm
  /-- A value of a sample type, as it is. -/
  | native (t : SampleType)
  /-- A fixed-point float, which is neither read nor written. -/
  | fixedPoint
  /-- A 24-bit integer, which is neither read nor written. -/
  | int24
  deriving DecidableEq, Repr

namespace SampleFormat

/-- All fourteen formats, by ascending code. -/
def all : List SampleFormat :=
  [ibmFloat, int32, int16, fixedPoint, ieeeFloat, ieeeDouble, int24, int8, int64, uint32, uint16, uint64,
    uint24, uint8]

/-- The code of a format in the binary header. -/
def code : SampleFormat → Nat
  | ibmFloat => 1
  | int32 => 2
  | int16 => 3
  | fixedPoint => 4
  | ieeeFloat => 5
  | ieeeDouble => 6
  | int24 => 7
  | int8 => 8
  | int64 => 9
  | uint32 => 10
  | uint16 => 11
  | uint64 => 12
  | uint24 => 15
  | uint8 => 16

/-- The format of a code. -/
def ofCode? (n : Int) : Option SampleFormat := all.find? (fun f => (f.code : Int) == n)

/-- The name of a format in messages and summaries. -/
def description : SampleFormat → String
  | ibmFloat => "ibm float"
  | int32 => "int32"
  | int16 => "int16"
  | fixedPoint => "fixed-point float with gain"
  | ieeeFloat => "ieee float"
  | ieeeDouble => "ieee double"
  | int24 => "int24"
  | int8 => "int8"
  | int64 => "int64"
  | uint32 => "uint32"
  | uint16 => "uint16"
  | uint64 => "uint64"
  | uint24 => "uint24"
  | uint8 => "uint8"

/-- What a stored sample of the format is. -/
def storage : SampleFormat → Storage
  | ibmFloat => .ibm
  | int32 => .native .int32
  | int16 => .native .int16
  | fixedPoint => .fixedPoint
  | ieeeFloat => .native .float32
  | ieeeDouble => .native .float64
  | int24 => .int24
  | int8 => .native .int8
  | int64 => .native .int64
  | uint32 => .native .uint32
  | uint16 => .native .uint16
  | uint64 => .native .uint64
  | uint24 => .int24
  | uint8 => .native .uint8

/-- The bytes of one stored sample. -/
def width : SampleFormat → Nat
  | int8 | uint8 => 1
  | int16 | uint16 => 2
  | int24 | uint24 => 3
  | ibmFloat | int32 | fixedPoint | ieeeFloat | uint32 => 4
  | ieeeDouble | int64 | uint64 => 8

theorem mem_all (f : SampleFormat) : f ∈ all := by
  cases f <;> decide

theorem width_pos (f : SampleFormat) : 0 < f.width := by
  cases f <;> decide

@[simp] theorem ofCode?_code (f : SampleFormat) : ofCode? f.code = some f := by
  cases f <;> decide

theorem width_of_native {f : SampleFormat} {t : SampleType} (h : f.storage = .native t) :
    f.width = t.width := by
  cases f <;> simp only [storage, Storage.native.injEq, reduceCtorEq] at h <;> subst h <;> rfl

end SampleFormat

end SegY
