import SegY.Bytes
import SegY.Vocabulary

/-!
# Kinds of header fields

The kinds of fields that any bytes spell: integers of fixed width, and codes.  Each kind has a type of
values, a width, and the two directions between a value and its bytes in a byte order.
-/

namespace SegY

/-- A kind of header field. -/
inductive FieldKind where
  | uint8
  | uint16
  | int16
  | uint32
  | int32
  /-- A code of a vocabulary, a signed 16-bit integer. -/
  | code (v : Vocabulary)
  deriving DecidableEq, Repr

namespace FieldKind

/-- The values of a kind. -/
@[reducible] def Value : FieldKind → Type
  | uint8 => UInt8
  | uint16 => UInt16
  | int16 => Int16
  | uint32 => UInt32
  | int32 => Int32
  | code v => Code v

/-- The width of a field in bytes. -/
def width : FieldKind → Nat
  | uint8 => 1
  | uint16 | int16 | code _ => 2
  | uint32 | int32 => 4

/-- The value of a field that was never set. -/
def zero : (k : FieldKind) → k.Value
  | uint8 => (0 : UInt8)
  | uint16 => (0 : UInt16)
  | int16 => (0 : Int16)
  | uint32 => (0 : UInt32)
  | int32 => (0 : Int32)
  | code v => Code.unspecified v

/-- The value that the bytes of a field hold. -/
def decode : (k : FieldKind) → ByteOrder → Bytes → k.Value
  | uint8, order, b => UInt8.ofNat (order.load b)
  | uint16, order, b => UInt16.ofNat (order.load b)
  | int16, order, b => Int16.ofNat (order.load b)
  | uint32, order, b => UInt32.ofNat (order.load b)
  | int32, order, b => Int32.ofNat (order.load b)
  | code v, order, b => Code.ofInt v (Int16.ofNat (order.load b)).toInt

/-- The bytes that hold a value. -/
def encode : (k : FieldKind) → ByteOrder → k.Value → Bytes
  | uint8, order, (x : UInt8) => order.store 1 x.toNat
  | uint16, order, (x : UInt16) => order.store 2 x.toNat
  | int16, order, (x : Int16) => order.store 2 x.toBitVec.toNat
  | uint32, order, (x : UInt32) => order.store 4 x.toNat
  | int32, order, (x : Int32) => order.store 4 x.toBitVec.toNat
  | code _, order, (x : Code _) => order.store 2 (Int16.ofInt x.toInt).toBitVec.toNat

instance : (k : FieldKind) → DecidableEq k.Value
  | uint8 => inferInstanceAs (DecidableEq UInt8)
  | uint16 => inferInstanceAs (DecidableEq UInt16)
  | int16 => inferInstanceAs (DecidableEq Int16)
  | uint32 => inferInstanceAs (DecidableEq UInt32)
  | int32 => inferInstanceAs (DecidableEq Int32)
  | code v => inferInstanceAs (DecidableEq (Code v))

/-- What is left of a value once it was written. -/
def settled : (k : FieldKind) → k.Value → k.Value
  | code _, (x : Code _) => x.settled
  | uint8, x | uint16, x | int16, x | uint32, x | int32, x => x

theorem load_int16 (order : ByteOrder) (x : Int16) :
    Int16.ofNat (order.load (order.store 2 x.toBitVec.toNat)) = x := by
  have h : x.toBitVec.toNat < Bytes.capacity 2 := x.toBitVec.isLt
  rw [ByteOrder.load_store, Nat.mod_eq_of_lt h]
  show Int16.ofBitVec (BitVec.ofNat 16 x.toBitVec.toNat) = x
  simp

theorem load_int32 (order : ByteOrder) (x : Int32) :
    Int32.ofNat (order.load (order.store 4 x.toBitVec.toNat)) = x := by
  have h : x.toBitVec.toNat < Bytes.capacity 4 := x.toBitVec.isLt
  rw [ByteOrder.load_store, Nat.mod_eq_of_lt h]
  show Int32.ofBitVec (BitVec.ofNat 32 x.toBitVec.toNat) = x
  simp

/-- What is read back of a value that was written. -/
theorem decode_encode (k : FieldKind) (order : ByteOrder) (x : k.Value) :
    k.decode order (k.encode order x) = k.settled x := by
  cases k with
  | uint8 => simp [decode, encode, settled, ByteOrder.load_store, Bytes.capacity]
  | uint16 => simp [decode, encode, settled, ByteOrder.load_store, Bytes.capacity]
  | int16 => exact load_int16 order x
  | uint32 => simp [decode, encode, settled, ByteOrder.load_store, Bytes.capacity]
  | int32 => exact load_int32 order x
  | code v =>
    have h := Code.toInt_bounds x
    simp only [decode, encode, load_int16, Int16.toInt_ofInt_of_le h.1 h.2, Code.ofInt_toInt, settled]

@[simp] theorem length_encode (k : FieldKind) (order : ByteOrder) (x : k.Value) :
    (k.encode order x).length = k.width := by
  cases k <;> simp [encode, width]

end FieldKind

/-- Where a field is, and what it holds. -/
structure FieldPlace where
  /-- The position of the first byte. -/
  start : Nat
  /-- What the bytes hold. -/
  kind : FieldKind
  deriving DecidableEq, Repr

end SegY
