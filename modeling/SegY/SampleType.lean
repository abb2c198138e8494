import SegY.Ieee

/-!
# Sample types

The ten types of which samples in memory can be.  A value of a type is its bit pattern, a `Word`;
`SampleType.number` is what the pattern means.  `SampleType.load` and `SampleType.store` move a value from
and to bytes and undo each other (`SampleType.load_store`, `SampleType.store_load`).
-/

namespace SegY

/-- An integer type, two's complement when signed. -/
inductive IntegerType where
  | int8
  | int16
  | int32
  | int64
  | uint8
  | uint16
  | uint32
  | uint64
  deriving DecidableEq, Repr

namespace IntegerType

/-- Whether negative numbers belong to the type. -/
def signed : IntegerType → Bool
  | int8 | int16 | int32 | int64 => true
  | uint8 | uint16 | uint32 | uint64 => false

/-- The width in bytes. -/
def width : IntegerType → Nat
  | int8 | uint8 => 1
  | int16 | uint16 => 2
  | int32 | uint32 => 4
  | int64 | uint64 => 8

/-- The width in bits. -/
def bits (t : IntegerType) : Nat := 8 * t.width

/-- The smallest integer of the type. -/
def lowest (t : IntegerType) : Int := if t.signed then -(1 <<< (t.bits - 1) : Nat) else 0

/-- The largest integer of the type. -/
def highest (t : IntegerType) : Int := (1 <<< (if t.signed then t.bits - 1 else t.bits) : Nat) - 1

/-- A bit pattern of the type. -/
abbrev Word (t : IntegerType) := BitVec t.bits

/-- The integer that a pattern means. -/
def toInt (t : IntegerType) (w : t.Word) : Int := if t.signed then w.toInt else w.toNat

/-- The pattern of an integer, if the type has it. -/
def ofInt? (t : IntegerType) (n : Int) : Option t.Word :=
  if t.lowest ≤ n ∧ n ≤ t.highest then some (BitVec.ofInt t.bits n) else none

end IntegerType

/-- A type of sample. -/
inductive SampleType where
  /-- Integers of a fixed width. -/
  | integer (t : IntegerType)
  /-- Binary floats. -/
  | floating (t : FloatType)
  deriving DecidableEq, Repr

namespace SampleType

abbrev int8 : SampleType := integer .int8
abbrev int16 : SampleType := integer .int16
abbrev int32 : SampleType := integer .int32
abbrev int64 : SampleType := integer .int64
abbrev uint8 : SampleType := integer .uint8
abbrev uint16 : SampleType := integer .uint16
abbrev uint32 : SampleType := integer .uint32
abbrev uint64 : SampleType := integer .uint64
abbrev float32 : SampleType := floating .float32
abbrev float64 : SampleType := floating .float64

/-- All ten types. -/
def all : List SampleType :=
  [int8, int16, int32, int64, uint8, uint16, uint32, uint64, float32, float64]

/-- The name of a type. -/
def name : SampleType → String
  | integer .int8 => "int8"
  | integer .int16 => "int16"
  | integer .int32 => "int32"
  | integer .int64 => "int64"
  | integer .uint8 => "uint8"
  | integer .uint16 => "uint16"
  | integer .uint32 => "uint32"
  | integer .uint64 => "uint64"
  | floating .float32 => "float32"
  | floating .float64 => "float64"

/-- The width in bits. -/
def bits : SampleType → Nat
  | integer t => t.bits
  | floating t => t.bits

/-- The width in bytes. -/
def width (t : SampleType) : Nat := t.bits / 8

/-- A value of the type, as its bit pattern. -/
abbrev Word (t : SampleType) := BitVec t.bits

/-- What a value means. -/
def number : (t : SampleType) → t.Word → Number
  | integer t, w => .ofInt (t.toInt w)
  | floating t, w => t.meaning w

/-- The value that the bytes hold. -/
def load (t : SampleType) (order : ByteOrder) (b : Bytes) : t.Word :=
  BitVec.ofNat t.bits (order.load b)

/-- The bytes that hold a value. -/
def store (t : SampleType) (order : ByteOrder) (w : t.Word) : Bytes := order.store t.width w.toNat

theorem mem_all (t : SampleType) : t ∈ all := by
  rcases t with t | t <;> cases t <;> decide

theorem bits_eq (t : SampleType) : t.bits = 8 * t.width := by
  rcases t with t | t <;> cases t <;> rfl

theorem capacity_width (t : SampleType) : Bytes.capacity t.width = 1 <<< t.bits := by
  rw [Bytes.capacity, t.bits_eq]

@[simp] theorem length_store (t : SampleType) (order : ByteOrder) (w : t.Word) :
    (t.store order w).length = t.width := by
  simp [store]

theorem load_store (t : SampleType) (order : ByteOrder) (w : t.Word) :
    t.load order (t.store order w) = w := by
  apply BitVec.eq_of_toNat_eq
  rw [load, store, ByteOrder.load_store, t.capacity_width, Nat.one_shiftLeft,
    BitVec.toNat_ofNat, Nat.mod_mod]
  exact Nat.mod_eq_of_lt w.isLt

theorem store_load (t : SampleType) (order : ByteOrder) (b : Bytes) (h : b.length = t.width) :
    t.store order (t.load order b) = b := by
  have hlt : order.load b < 2 ^ t.bits := by
    rw [← Nat.one_shiftLeft, ← t.capacity_width, ← h, ByteOrder.load, ← ByteOrder.length_arrange order b]
    exact Bytes.toNat_lt _
  rw [store, load, BitVec.toNat_ofNat, Nat.mod_eq_of_lt hlt, ← h, ByteOrder.store_load]

end SampleType

end SegY
