import SegY.FieldKind

/-!
# Header fields — read and written again

What `FieldKind.decode_encode` says of values, this module says of bytes.  A field that was read is
written as it was (`FieldKind.encode_decode_of_known`), except that a code which its vocabulary does
not have becomes zeros (`FieldKind.encode_decode_of_unknown`).
-/

namespace SegY

theorem ByteOrder.load_lt (order : ByteOrder) (b : Bytes) :
    order.load b < Bytes.capacity b.length := by
  rw [load, ← length_arrange order b]
  exact Bytes.toNat_lt _

/-- A number that is what the bytes hold is stored as these bytes. -/
theorem ByteOrder.store_of_load {order : ByteOrder} {b : Bytes} {width n : Nat}
    (hb : b.length = width) (hn : order.load b < Bytes.capacity width → n = order.load b) :
    order.store width n = b := by
  subst hb
  rw [hn (order.load_lt b), store_load]

namespace FieldKind

variable {order : ByteOrder} {b : Bytes}

theorem store_int16 (hb : b.length = 2) :
    order.store 2 (Int16.ofNat (order.load b)).toBitVec.toNat = b :=
  ByteOrder.store_of_load hb fun h => Nat.mod_eq_of_lt h

theorem store_int32 (hb : b.length = 4) :
    order.store 4 (Int32.ofNat (order.load b)).toBitVec.toNat = b :=
  ByteOrder.store_of_load hb fun h => Nat.mod_eq_of_lt h

/-- Whether bytes are a code that the vocabulary of the field does not have. -/
def isUnknown : FieldKind → ByteOrder → Bytes → Bool
  | code v, order, b => !decide (v.Has (Int16.ofNat (order.load b)).toInt)
  | uint8, _, _ | uint16, _, _ | int16, _, _ | uint32, _, _ | int32, _, _ => false

/-- A field that was read is written as it was. -/
theorem encode_decode_of_known {k : FieldKind} (hb : b.length = k.width)
    (h : k.isUnknown order b = false) : k.encode order (k.decode order b) = b := by
  cases k with
  | uint8 | uint16 | uint32 => exact ByteOrder.store_of_load hb fun h => Nat.mod_eq_of_lt h
  | int16 => exact store_int16 hb
  | int32 => exact store_int32 hb
  | code v =>
    have hcode : v.Has (Int16.ofNat (order.load b)).toInt := by simpa [isUnknown] using h
    simp only [encode, decode, Code.toInt_ofInt hcode, Int16.ofInt_toInt]
    exact store_int16 hb

/-- An unknown code is written as zeros. -/
theorem encode_decode_of_unknown {k : FieldKind} (h : k.isUnknown order b = true) :
    k.width = 2 ∧ k.encode order (k.decode order b) = [0, 0] := by
  cases k with
  | code v =>
    have hcode : ¬ v.Has (Int16.ofNat (order.load b)).toInt := by simpa [isUnknown] using h
    simp only [encode, decode, Code.ofInt, dif_neg hcode, Code.toInt]
    exact ⟨rfl, by cases order <;> rfl⟩
  | uint8 | uint16 | int16 | uint32 | int32 => cases h

/-- No code that was written is unknown. -/
theorem isUnknown_encode (k : FieldKind) (order : ByteOrder) (x : k.Value) :
    k.isUnknown order (k.encode order x) = false := by
  cases k with
  | code v =>
    have h := Code.toInt_bounds x
    simp only [isUnknown, encode, load_int16, Int16.toInt_ofInt_of_le h.1 h.2, Code.has_toInt,
      decide_true, Bool.not_true]
  | uint8 | uint16 | int16 | uint32 | int32 => rfl

/-- What is left of a value once it was written is written as before. -/
theorem encode_settled (k : FieldKind) (order : ByteOrder) (x : k.Value) :
    k.encode order (k.settled x) = k.encode order x := by
  rw [← decode_encode k order x]
  exact encode_decode_of_known (length_encode k order x) (isUnknown_encode k order x)

end FieldKind

end SegY
