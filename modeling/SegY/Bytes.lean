/-!
# Byte strings and byte orders

A byte string is a list of bytes.  `Bytes.toNat` and `Bytes.ofNat` are the two directions between a
number and its bytes, least significant first; `ByteOrder.load` and `ByteOrder.store` are the same two
directions in a given byte order.  Both pairs undo each other at every width
(`Bytes.toNat_ofNat`, `Bytes.ofNat_toNat`).

`Bytes.slice` reads a range and `Bytes.overwrite` writes one.  An `Image` is a file in memory, an array of
bytes, of which `Image.slice` reads a range.
-/

namespace SegY

/-- A byte string. -/
abbrev Bytes := List UInt8

/-- Which end of a stored number comes first. -/
inductive ByteOrder where
  /-- Least significant byte first. -/
  | little
  /-- Most significant byte first. -/
  | big
  deriving DecidableEq, Repr

namespace Bytes

/-- The bytes of a text, in UTF-8. -/
def ofText (s : String) : Bytes := s.toUTF8.data.toList

/-- The bytes from `start` on, at most `length` of them. -/
def slice (b : Bytes) (start length : Nat) : Bytes := (b.drop start).take length

/-- The string `b` with `piece` written over the bytes from `start` on. -/
def overwrite (b : Bytes) (start : Nat) (piece : Bytes) : Bytes :=
  b.take start ++ piece ++ b.drop (start + piece.length)

/-- So many zeros, with pieces written over them one after the other, each from a position on. -/
def assemble (length : Nat) (pieces : List (Nat × Bytes)) : Bytes :=
  pieces.foldl (fun b p => overwrite b p.1 p.2) (List.replicate length 0)

/-- The bytes before the first NUL. -/
def untilNul (b : Bytes) : Bytes := b.takeWhile (· != 0)

/-- The number whose bytes these are, least significant first. -/
def toNat : Bytes → Nat
  | [] => 0
  | b :: rest => b.toNat + 256 * toNat rest

/-- The `width` low bytes of a number, least significant first. -/
def ofNat : Nat → Nat → Bytes
  | 0, _ => []
  | width + 1, n => UInt8.ofNat n :: ofNat width (n / 256)

@[simp] theorem length_ofNat (width n : Nat) : (ofNat width n).length = width := by
  induction width generalizing n with
  | zero => rfl
  | succ width ih => simp [ofNat, ih]

/-- How many numbers so many bytes can tell apart. -/
def capacity (width : Nat) : Nat := 1 <<< (8 * width)

theorem capacity_succ (width : Nat) : capacity (width + 1) = 256 * capacity width := by
  rw [capacity, capacity, Nat.mul_succ, Nat.shiftLeft_add, Nat.shiftLeft_eq _ 8, Nat.mul_comm]

theorem capacity_le_capacity {m n : Nat} (h : m ≤ n) : capacity m ≤ capacity n := by
  rw [capacity, capacity, Nat.one_shiftLeft, Nat.one_shiftLeft]
  exact Nat.pow_le_pow_right (by decide) (Nat.mul_le_mul_left 8 h)

theorem toNat_lt (b : Bytes) : toNat b < capacity b.length := by
  induction b with
  | nil => decide
  | cons x rest ih =>
    have := x.toNat_lt
    simp only [toNat, List.length_cons, capacity_succ]
    omega

theorem toNat_ofNat (width n : Nat) : toNat (ofNat width n) = n % capacity width := by
  induction width generalizing n with
  | zero => exact (Nat.mod_one n).symm
  | succ width ih =>
    simp only [ofNat, toNat, ih, UInt8.toNat_ofNat', capacity_succ]
    exact Nat.mod_mul.symm

theorem ofNat_toNat (b : Bytes) : ofNat b.length (toNat b) = b := by
  induction b with
  | nil => rfl
  | cons x rest ih =>
    have hx := x.toNat_lt
    have h₁ : (x.toNat + 256 * toNat rest) / 256 = toNat rest := by omega
    have h₂ : UInt8.ofNat (x.toNat + 256 * toNat rest) = x := by
      apply UInt8.toNat_inj.mp
      rw [UInt8.toNat_ofNat']
      omega
    simp only [List.length_cons, toNat, ofNat, h₁, h₂, ih]

theorem length_overwrite {b : Bytes} {start : Nat} {piece : Bytes}
    (h : start + piece.length ≤ b.length) : (overwrite b start piece).length = b.length := by
  simp only [overwrite, List.length_append, List.length_take, List.length_drop]
  omega

/-- What was written is there. -/
theorem slice_overwrite_self {b : Bytes} {start : Nat} {piece : Bytes}
    (h : start ≤ b.length) : slice (overwrite b start piece) start piece.length = piece := by
  have hs : (b.take start).length = start := by simp [h]
  simp [slice, overwrite, List.append_assoc, hs]

/-- What was not written over is still there. -/
theorem slice_overwrite_of_disjoint {b : Bytes} {start : Nat} {piece : Bytes} {pos length : Nat}
    (h : start + piece.length ≤ b.length)
    (hd : pos + length ≤ start ∨ start + piece.length ≤ pos) :
    slice (overwrite b start piece) pos length = slice b pos length := by
  apply List.ext_getElem?
  intro i
  simp only [slice, overwrite, List.getElem?_take, List.getElem?_drop]
  split
  · next hi =>
    rcases hd with hd | hd
    · rw [List.append_assoc, List.getElem?_append_left (by simp; omega), List.getElem?_take_of_lt (by omega)]
    · rw [List.getElem?_append_right (by simp; omega), List.getElem?_drop]
      congr 1
      simp only [List.length_append, List.length_take]
      omega
  · rfl
end Bytes

namespace ByteOrder

/-- The bytes of a number with the least significant one first, put into this order, or back. -/
def arrange : ByteOrder → Bytes → Bytes
  | little, b => b
  | big, b => b.reverse

/-- The number that the bytes hold. -/
def load (order : ByteOrder) (b : Bytes) : Nat := Bytes.toNat (order.arrange b)

/-- The `width` bytes that hold the number. -/
def store (order : ByteOrder) (width n : Nat) : Bytes := order.arrange (Bytes.ofNat width n)

@[simp] theorem arrange_arrange (order : ByteOrder) (b : Bytes) :
    order.arrange (order.arrange b) = b := by
  cases order <;> simp [arrange]

@[simp] theorem length_arrange (order : ByteOrder) (b : Bytes) :
    (order.arrange b).length = b.length := by
  cases order <;> simp [arrange]

@[simp] theorem length_store (order : ByteOrder) (width n : Nat) :
    (order.store width n).length = width := by
  simp [store]

theorem load_store (order : ByteOrder) (width n : Nat) :
    order.load (order.store width n) = n % Bytes.capacity width := by
  simp [load, store, Bytes.toNat_ofNat]

theorem store_load (order : ByteOrder) (b : Bytes) : order.store b.length (order.load b) = b := by
  have h := Bytes.ofNat_toNat (order.arrange b)
  rw [length_arrange] at h
  simp [load, store, h]

end ByteOrder

/-- A file in memory. -/
abbrev Image := Array UInt8

/-- The bytes of a file from `start` on, at most `length` of them. -/
def Image.slice (image : Image) (start length : Nat) : Bytes :=
  (image.extract start (start + length)).toList

/-- A range of a file is the range of its list of bytes. -/
theorem Image.slice_eq (image : Image) (start length : Nat) :
    image.slice start length = Bytes.slice image.toList start length := by
  simp only [Image.slice, Bytes.slice, Array.toList_extract, List.extract_eq_take_drop]
  rw [Nat.add_sub_cancel_left]

end SegY
