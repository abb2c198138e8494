import SegY.SampleType

/-!
# Byte orders — byte by byte

`SampleType.load` and `SampleType.store` move a value as a whole.  The same can be done with shifts
and masks, a byte at a time: each byte of a value has its place, which the byte order counts from
one end or from the other (`ByteOrder.shift`), and shifts are made in at least 32 bits, whatever
the width of the value is.

The invariant of reading is said bit by bit: after `n` bytes the value has the bits whose byte is
among these (`ByteOrder.index`).

* `SampleType.loadLoop_eq`: bytes that are put into place one after the other make up the value.
* `SampleType.storeLoop_eq`: bytes that are cut out of a value overwrite their range of a memory.
* `SampleType.load_reverse`: the other order reads the bytes from the other end.
* `SampleType.load_and_store_undo_each_other`: with that, what reading and writing have in common.
-/

namespace SegY

/-! ### Bits and bytes of a number -/

namespace Bytes

/-- Bit `k` of a number is a bit of byte `k / 8`. -/
theorem testBit_toNat (b : Bytes) (k : Nat) :
    (toNat b).testBit k = (b.getD (k / 8) 0).toNat.testBit (k % 8) := by
  induction b generalizing k with
  | nil => simp [toNat]
  | cons x rest ih =>
    have hsum : toNat (x :: rest) = 2 ^ 8 * toNat rest + x.toNat := Nat.add_comm ..
    rw [hsum, Nat.testBit_two_pow_mul_add _ x.toNat_lt]
    split
    · next hk =>
      rw [Nat.div_eq_of_lt hk, Nat.mod_eq_of_lt hk]
      rfl
    · next hk =>
      have hdiv : k / 8 = (k - 8) / 8 + 1 := by omega
      have hmod : k % 8 = (k - 8) % 8 := by omega
      rw [ih, hdiv, hmod, List.getD_cons_succ]

theorem getElem?_ofNat {width i : Nat} (hi : i < width) (n : Nat) :
    (ofNat width n)[i]? = some (UInt8.ofNat (n >>> (8 * i))) := by
  induction width generalizing n i with
  | zero => omega
  | succ width ih =>
    cases i with
    | zero => rfl
    | succ i =>
      have hshift : (n / 256) >>> (8 * i) = n >>> (8 * (i + 1)) := by
        rw [Nat.mul_succ, Nat.add_comm, Nat.shiftRight_add, Nat.shiftRight_eq_div_pow n 8]
      rw [ofNat, List.getElem?_cons_succ, ih (Nat.lt_of_succ_lt_succ hi), hshift]

/-- A memory with a piece written over it: the piece in its place, and all else as it was. -/
theorem getElem?_overwrite {memory piece : Bytes} {pos : Nat}
    (h : pos + piece.length ≤ memory.length) (j : Nat) : (overwrite memory pos piece)[j]? =
      if pos ≤ j ∧ j < pos + piece.length then piece[j - pos]? else memory[j]? := by
  have hfront : (memory.take pos).length = pos := by
    rw [List.length_take]
    omega
  rw [overwrite]
  split
  · next hj =>
    rw [List.getElem?_append_left (by rw [List.length_append, hfront]; exact hj.2),
      List.getElem?_append_right (by rw [hfront]; exact hj.1), hfront]
  · next hj =>
    rcases Nat.lt_or_ge j pos with hlt | hge
    · rw [List.append_assoc, List.getElem?_append_left (by rwa [hfront]),
        List.getElem?_take_of_lt hlt]
    · rw [List.getElem?_append_right (by rw [List.length_append, hfront]; omega),
        List.length_append, hfront, List.getElem?_drop]
      congr 1
      omega

end Bytes

/-! ### The place of a byte -/

namespace ByteOrder

/-- The other byte order. -/
def other : ByteOrder → ByteOrder
  | little => big
  | big => little

/-- By how many bits the byte of an index is shifted in a value of a width. -/
def shift : ByteOrder → Nat → Nat → Nat
  | little, _, i => 8 * i
  | big, width, i => 8 * (width - 1 - i)

/-- The index of the byte that has bit `k` of a value of a width. -/
def index : ByteOrder → Nat → Nat → Nat
  | little, _, k => k / 8
  | big, width, k => width - 1 - k / 8

/-- Bit `k` is among the eight that are shifted to the place of a byte exactly if that byte has
it. -/
theorem index_eq_iff (order : ByteOrder) {width i k : Nat} (hi : i < width) (hk : k < 8 * width) :
    order.index width k = i ↔ order.shift width i ≤ k ∧ k - order.shift width i < 8 := by
  cases order <;> simp only [index, shift] <;> omega

theorem sub_shift_index (order : ByteOrder) {width k : Nat} (hk : k < 8 * width) :
    k - order.shift width (order.index width k) = k % 8 := by
  cases order <;> simp only [index, shift] <;> omega

theorem index_lt (order : ByteOrder) {width k : Nat} (hk : k < 8 * width) :
    order.index width k < width := by
  cases order <;> simp only [index] <;> omega

theorem arrange_other (order : ByteOrder) (b : Bytes) : order.other.arrange b.reverse =
    order.arrange b := by
  cases order
  · exact List.reverse_reverse b
  · rfl

theorem load_other (order : ByteOrder) (b : Bytes) : order.other.load b.reverse = order.load b := by
  rw [load, load, arrange_other]

/-- Bit `k` of a number that is stored is a bit of the byte that has it. -/
theorem testBit_load (order : ByteOrder) {b : Bytes} {k : Nat} (hk : k < 8 * b.length) :
    (order.load b).testBit k = (b.getD (order.index b.length k) 0).toNat.testBit (k % 8) := by
  rw [load, Bytes.testBit_toNat]
  cases order with
  | little => rfl
  | big =>
    rw [arrange, index, List.getD_eq_getElem?_getD, List.getD_eq_getElem?_getD,
      List.getElem?_reverse (by omega)]

theorem getElem?_store (order : ByteOrder) {width i : Nat} (hi : i < width) (n : Nat) :
    (order.store width n)[i]? = some (UInt8.ofNat (n >>> order.shift width i)) := by
  cases order with
  | little => exact Bytes.getElem?_ofNat hi n
  | big =>
    rw [store, arrange, List.getElem?_reverse (by rwa [Bytes.length_ofNat]), Bytes.length_ofNat,
      Bytes.getElem?_ofNat (by omega), shift]

end ByteOrder

namespace SampleType

variable (t : SampleType) (order : ByteOrder)

/-! ### Reading -/

/-- The width in which values are shifted: narrow ones are widened. -/
def shiftedBits : Nat := max 32 t.bits

/-- What was read of a value, with one more byte in its place. -/
def gather (b : Bytes) (x : t.Word) (i : Nat) : t.Word :=
  (x.setWidth t.shiftedBits |||
    (b.getD i 0).toBitVec.setWidth t.shiftedBits <<< order.shift t.width i).setWidth t.bits

/-- Reads a value byte by byte. -/
def loadLoop (b : Bytes) : t.Word := (List.range t.width).foldl (t.gather order b) 0

/-- A step of reading adds the bits of its byte. -/
theorem getLsbD_gather (b : Bytes) (x : t.Word) {i k : Nat} (hi : i < t.width)
    (hk : k < t.bits) : (t.gather order b x i).getLsbD k =
      (x.getLsbD k || decide (order.index t.width k = i) &&
        (b.getD i 0).toNat.testBit (k % 8)) := by
  have hwide : k < t.shiftedBits := Nat.lt_of_lt_of_le hk (Nat.le_max_right ..)
  have hbits : k < 8 * t.width := t.bits_eq ▸ hk
  have hplace := order.index_eq_iff hi hbits
  simp only [gather, BitVec.getLsbD_setWidth, BitVec.getLsbD_or, BitVec.getLsbD_shiftLeft, hk,
    hwide, decide_true, Bool.true_and]
  congr 1
  by_cases hindex : order.index t.width k = i
  · have hmod := order.sub_shift_index hbits
    rw [hindex] at hmod
    have hshift := hplace.mp hindex
    have hnear : k % 8 < t.shiftedBits := hmod ▸ Nat.lt_of_le_of_lt (Nat.sub_le ..) hwide
    rw [decide_eq_true hindex, decide_eq_false (Nat.not_lt.mpr hshift.1), hmod,
      decide_eq_true hnear]
    rfl
  · rw [decide_eq_false hindex, Bool.false_and]
    by_cases hlt : k < order.shift t.width i
    · rw [decide_eq_true hlt, Bool.not_true, Bool.false_and]
    · have hbeyond : 8 ≤ k - order.shift t.width i :=
        Nat.le_of_not_lt fun hnear => hindex (hplace.mpr ⟨Nat.le_of_not_lt hlt, hnear⟩)
      rw [BitVec.getLsbD_of_ge _ _ hbeyond, Bool.and_false, Bool.and_false]

/-- After `n` bytes a value has the bits of these bytes, and no others. -/
theorem getLsbD_gathered (b : Bytes) {n k : Nat} (hn : n ≤ t.width) (hk : k < t.bits) :
    ((List.range n).foldl (t.gather order b) 0).getLsbD k =
      (decide (order.index t.width k < n) &&
        (b.getD (order.index t.width k) 0).toNat.testBit (k % 8)) := by
  induction n with
  | zero => simp
  | succ n ih =>
    rw [List.range_succ, List.foldl_append, List.foldl_cons, List.foldl_nil,
      t.getLsbD_gather order b _ hn hk, ih (Nat.le_of_succ_le hn)]
    rcases Nat.lt_trichotomy (order.index t.width k) n with h | h | h
    · simp [h, Nat.ne_of_lt h, Nat.lt_succ_of_lt h]
    · simp [h]
    · simp [Nat.ne_of_gt h, Nat.not_lt.mpr (Nat.le_of_lt h), Nat.not_lt.mpr (Nat.succ_le_of_lt h)]

/-- **Bytes put into place one after the other make up the value.** -/
theorem loadLoop_eq {b : Bytes} (hb : b.length = t.width) :
    t.loadLoop order b = t.load order b := by
  refine BitVec.eq_of_getLsbD_eq fun k hk => ?_
  have hbits : k < 8 * t.width := t.bits_eq ▸ hk
  rw [loadLoop, t.getLsbD_gathered order b (Nat.le_refl _) hk,
    decide_eq_true (order.index_lt hbits), Bool.true_and, load, BitVec.getLsbD_ofNat,
    decide_eq_true hk, Bool.true_and, order.testBit_load (hb.symm ▸ hbits), hb]

/-- The other order reads the bytes from the other end. -/
theorem load_reverse (b : Bytes) : t.load order.other b.reverse = t.load order b := by
  rw [load, load, ByteOrder.load_other]

/-! ### Writing -/

/-- The byte of an index, cut out of a value. -/
def scatter (w : t.Word) (i : Nat) : UInt8 :=
  ⟨(w.setWidth t.shiftedBits >>> order.shift t.width i &&& 0xFF).setWidth 8⟩

/-- Writes a value byte by byte into a memory, from a position on. -/
def storeLoop (w : t.Word) (memory : Bytes) (pos : Nat) : Bytes :=
  (List.range t.width).foldl (fun memory i => memory.set (pos + i) (t.scatter order w i)) memory

/-- What is cut out of a value is a byte of what is stored of it. -/
theorem getElem?_store (w : t.Word) {i : Nat} (hi : i < t.width) :
    (t.store order w)[i]? = some (t.scatter order w i) := by
  rw [store, order.getElem?_store hi, Option.some.injEq, scatter, ← UInt8.toBitVec_inj]
  refine BitVec.eq_of_getLsbD_eq fun k hk => ?_
  have hwide : t.bits ≤ t.shiftedBits := Nat.le_max_right ..
  have hbyte : k < t.shiftedBits :=
    Nat.lt_of_lt_of_le hk (Nat.le_trans (by decide : 8 ≤ 32) (Nat.le_max_left ..))
  have hmask : (0xFF : BitVec t.shiftedBits).getLsbD k = true := by
    rw [show (0xFF : BitVec t.shiftedBits) = BitVec.ofNat _ (2 ^ 8 - 1) from rfl,
      BitVec.getLsbD_ofNat, decide_eq_true hbyte, Nat.testBit_two_pow_sub_one, decide_eq_true hk,
      Bool.and_true]
  -- the bits that the value does not have are zeros before and after it is widened
  have hbit : (w.setWidth t.shiftedBits).getLsbD (order.shift t.width i + k) =
      w.toNat.testBit (order.shift t.width i + k) := by
    rw [BitVec.getLsbD_setWidth, BitVec.testBit_toNat]
    by_cases hlt : order.shift t.width i + k < t.bits
    · rw [decide_eq_true (Nat.lt_of_lt_of_le hlt hwide), Bool.true_and]
    · rw [BitVec.getLsbD_of_ge w _ (Nat.le_of_not_lt hlt), Bool.and_false]
  rw [BitVec.getLsbD_setWidth, BitVec.getLsbD_and, BitVec.getLsbD_ushiftRight, hbit, hmask,
    UInt8.toBitVec_ofNat', BitVec.getLsbD_ofNat, Nat.testBit_shiftRight, Bool.and_true]

/-- After `n` bytes a memory has these in place, and all else is as it was. -/
theorem getElem?_scattered (w : t.Word) {memory : Bytes} {pos : Nat}
    (h : pos + t.width ≤ memory.length) {n : Nat} (hn : n ≤ t.width) (j : Nat) :
    ((List.range n).foldl (fun memory i => memory.set (pos + i) (t.scatter order w i)) memory)[j]? =
      if pos ≤ j ∧ j < pos + n then some (t.scatter order w (j - pos)) else memory[j]? := by
  induction n generalizing j with
  | zero => rw [List.range_zero, List.foldl_nil, if_neg (by omega)]
  | succ n ih =>
    have hlt : pos + n < ((List.range n).foldl
        (fun memory i => memory.set (pos + i) (t.scatter order w i)) memory).length := by
      have hkept := ih (Nat.le_of_succ_le hn) (pos + n)
      have hthere : memory[pos + n]? = some memory[pos + n] := List.getElem?_eq_getElem (by omega)
      rw [if_neg (by omega), hthere] at hkept
      exact (List.getElem?_eq_some_iff.mp hkept).1
    rw [List.range_succ, List.foldl_append, List.foldl_cons, List.foldl_nil, List.getElem?_set,
      if_pos hlt, ih (Nat.le_of_succ_le hn)]
    by_cases hj : pos + n = j
    · subst hj
      rw [if_pos rfl, if_pos (by omega), Nat.add_sub_cancel_left]
    · have hsame : pos ≤ j ∧ j < pos + n ↔ pos ≤ j ∧ j < pos + (n + 1) := by omega
      rw [if_neg hj]
      simp only [hsame]

/-- **Bytes cut out of a value one after the other overwrite their range of a memory.** -/
theorem storeLoop_eq (w : t.Word) {memory : Bytes} {pos : Nat}
    (h : pos + t.width ≤ memory.length) :
    t.storeLoop order w memory pos = memory.overwrite pos (t.store order w) := by
  apply List.ext_getElem?
  intro j
  rw [storeLoop, t.getElem?_scattered order w h (Nat.le_refl _),
    Bytes.getElem?_overwrite (by rwa [length_store]), length_store]
  split
  · next hj => rw [t.getElem?_store order w (by omega)]
  · rfl

/-! ### Both -/

/-- **Reading and writing undo each other.**  For every sample type and both byte orders, byte by
byte with shifts and masks as at once: a value that is stored is loaded again, and bytes that are
loaded are stored again.  The other order loads the same value from the reversed bytes.

A value that is stored anywhere in a memory changes the bytes of its width: each of these is then
the byte of the value, whatever it was before, and all others are as they were.  So the value is
loaded from there. -/
theorem load_and_store_undo_each_other (t : SampleType) (order : ByteOrder) :
    (∀ w : t.Word, t.load order (t.store order w) = w ∧ (t.store order w).length = t.width) ∧
    (∀ b : Bytes, b.length = t.width →
      t.store order (t.load order b) = b ∧ t.load order b = t.load order.other b.reverse ∧
        t.loadLoop order b = t.load order b) ∧
    ∀ (w : t.Word) (memory : Bytes) (pos : Nat), pos + t.width ≤ memory.length →
      let stored := t.storeLoop order w memory pos
      stored.length = memory.length ∧ stored.slice pos t.width = t.store order w ∧
      t.loadLoop order (stored.slice pos t.width) = w ∧
      ∀ j, stored[j]? =
        if pos ≤ j ∧ j < pos + t.width then some (t.scatter order w (j - pos)) else memory[j]? := by
  refine ⟨fun w => ⟨t.load_store order w, t.length_store order w⟩, fun b hb => ?_, ?_⟩
  · exact ⟨t.store_load order b hb, (t.load_reverse order b).symm, t.loadLoop_eq order hb⟩
  · intro w memory pos h stored
    have hfits : pos + (t.store order w).length ≤ memory.length := by rwa [length_store]
    have hstored : stored = memory.overwrite pos (t.store order w) := t.storeLoop_eq order w h
    have hslice : stored.slice pos t.width = t.store order w := by
      rw [hstored, ← t.length_store order w]
      exact Bytes.slice_overwrite_self (Nat.le_of_add_right_le hfits)
    refine ⟨?_, hslice, ?_, t.getElem?_scattered order w h (Nat.le_refl _)⟩
    · rw [hstored, Bytes.length_overwrite hfits]
    · rw [hslice, t.loadLoop_eq order (t.length_store order w), t.load_store]

/-- A single is 1 where it is stored, and the bytes beside it are as they were. -/
theorem load_and_store_undo_each_other_one :
    let one : float32.Word := 0x3F800000
    let stored := float32.storeLoop .big one [1, 2, 3, 4, 5, 6] 1
    float32.load .little [0x00, 0x00, 0x80, 0x3F] = float32.load .big [0x3F, 0x80, 0x00, 0x00] ∧
      stored.length = 6 ∧ stored[0]? = some 1 ∧ stored[1]? = some 0x3F ∧ stored[5]? = some 6 ∧
      float32.loadLoop .big (stored.slice 1 4) = one := by
  intro one stored
  obtain ⟨-, hbytes, -⟩ := load_and_store_undo_each_other .float32 .little
  obtain ⟨-, -, hmemory⟩ := load_and_store_undo_each_other .float32 .big
  obtain ⟨hlength, -, hload, hstored⟩ := hmemory one [1, 2, 3, 4, 5, 6] 1 (by decide)
  exact ⟨(hbytes [0x00, 0x00, 0x80, 0x3F] rfl).2.1, hlength, hstored 0,
    (hstored 1).trans (by decide), hstored 5, hload⟩

end SampleType

end SegY
