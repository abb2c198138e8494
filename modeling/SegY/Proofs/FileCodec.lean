import Mathlib.Algebra.Group.Nat.Defs
import Mathlib.Data.List.TakeWhile
import SegY.BinaryHeader
import SegY.Proofs.FieldCodec
import SegY.Proofs.Layout
import SegY.Proofs.Results
import SegY.TapeLabel
import SegY.TextHeader

/-!
# The headers of a file — written and read back

The text header, the binary header and the tape label, each in its bytes.

* `TextHeader.decode_pad`: printable text is read back with the blanks that pad it.
* `BinaryHeader.ofBytes_toBytes`: with default settings a binary header is read back as it was,
  except that an invalid code says nothing.
* `TapeLabel.ofBytes_of_toBytes`: a label that can be written is read back as it was.
-/

namespace SegY
open Bytes (slice spans Disjoint assemble)

/-! ### The text header -/

namespace TextHeader

theorem length_pad {text : Bytes} (h : text.length ≤ size) : (pad text).length = size := by
  simp only [pad, List.length_append, List.length_replicate]
  omega

theorem isPrintable_pad {text : Bytes} (h : isPrintable text = true) :
    isPrintable (pad text) = true := by
  simp only [isPrintable, pad, List.all_append, Bool.and_eq_true, List.all_eq_true] at h ⊢
  refine ⟨h, fun c hc => ?_⟩
  rw [List.eq_of_mem_replicate hc]
  exact ⟨by decide, by decide⟩

/-- Printable text is kept as it is. -/
theorem decode_of_isPrintable {b : Bytes} (h : isPrintable b = true) : decode b = b := by
  rw [decode, if_pos h, Bytes.untilNul]
  simp only [isPrintable, List.all_eq_true] at h
  refine List.takeWhile_eq_self_iff.mpr fun c hc => ?_
  have hc := h c hc
  simp only [Bool.and_eq_true, decide_eq_true_eq, bne_iff_ne, ne_eq] at hc ⊢
  rintro rfl
  exact absurd hc.1 (by decide)

theorem decode_pad {text : Bytes} (h : isPrintable text = true) : decode (pad text) = pad text :=
  decode_of_isPrintable (isPrintable_pad h)

end TextHeader

/-! ### The binary header -/

namespace BinaryHeader

theorem set_field_self (h : BinaryHeader) (f : BinaryField) (x : f.Value) :
    (h.set f x).field f = x := by
  simp only [set, dif_pos]

theorem set_field_of_ne (h : BinaryHeader) {f g : BinaryField} (hne : f ≠ g) (x : f.Value) :
    (h.set f x).field g = h.field g := by
  simp only [set, dif_neg hne]

/-- What is left of a header once it was written: an invalid code says nothing. -/
def settled (h : BinaryHeader) : BinaryHeader :=
  { h with field := fun f => f.kind.settled (h.field f) }

/-- The ranges of the parts. -/
def layout : List (Nat × Nat) :=
  BinaryField.all.map (fun f => (f.start, f.kind.width)) ++
    [(formatStart, 2), (markerStart, 4), (flagStart, 2)]

theorem disjoint_layout : Disjoint HeaderKind.binary.length layout :=
  ⟨by decide, List.pairwise_append.mpr
    ⟨Bytes.pairwise_apart_of_isChain (by decide), by decide, by decide⟩⟩

theorem spans_pieces (h : BinaryHeader) : spans h.pieces = layout := by
  have hm : (marker h.order).length = 4 := by cases h.order <;> rfl
  simp [spans, pieces, layout, Function.comp_def, hm]

theorem disjoint_pieces (h : BinaryHeader) : Disjoint HeaderKind.binary.length (spans h.pieces) :=
  h.spans_pieces ▸ disjoint_layout

/-- A written header has 400 bytes. -/
theorem length_toBytes (h : BinaryHeader) : h.toBytes.length = HeaderKind.binary.length :=
  Bytes.length_assemble fun _ hp => h.disjoint_pieces.1 _ (List.mem_map_of_mem hp)

theorem slice_field (h : BinaryHeader) (f : BinaryField) :
    slice h.toBytes f.start f.kind.width = f.kind.encode h.order (h.field f) := by
  have hp : (f.start, f.kind.encode h.order (h.field f)) ∈ h.pieces := by
    simp only [pieces, List.mem_append, List.mem_map]
    exact .inl ⟨f, f.mem_all, rfl⟩
  have hf := Bytes.slice_assemble h.disjoint_pieces hp
  rwa [FieldKind.length_encode] at hf

theorem slice_format (h : BinaryHeader) :
    slice h.toBytes formatStart 2 = h.order.store 2 h.format.code := by
  have hp : (formatStart, h.order.store 2 h.format.code) ∈ h.pieces := by simp [pieces]
  have hf := Bytes.slice_assemble h.disjoint_pieces hp
  rwa [ByteOrder.length_store] at hf

theorem slice_flag (h : BinaryHeader) :
    slice h.toBytes flagStart 2 = h.order.store 2 h.fixedLength.toNat := by
  have hp : (flagStart, h.order.store 2 h.fixedLength.toNat) ∈ h.pieces := by simp [pieces]
  have hf := Bytes.slice_assemble h.disjoint_pieces hp
  rwa [ByteOrder.length_store] at hf

theorem slice_marker (h : BinaryHeader) : slice h.toBytes markerStart 4 = marker h.order := by
  have hp : (markerStart, marker h.order) ∈ h.pieces := by simp [pieces]
  have hw : (markerStart, marker h.order).2.length = 4 := by cases h.order <;> rfl
  rw [toBytes, ← hw]
  exact Bytes.slice_assemble h.disjoint_pieces hp

/-- A byte that belongs to no part is zero. -/
theorem getElem?_toBytes (h : BinaryHeader) {i : Nat} (hi : i < HeaderKind.binary.length)
    (ha : ∀ r ∈ layout, Bytes.Apart (i, 1) r) : h.toBytes[i]? = some 0 := by
  have hmem : ∀ p ∈ h.pieces, (p.1, p.2.length) ∈ layout := fun p hp =>
    h.spans_pieces ▸ List.mem_map_of_mem hp
  exact Bytes.getElem?_assemble_of_apart (fun p hp => disjoint_layout.1 _ (hmem p hp)) hi
    fun p hp => ha _ (hmem p hp)

/-- The marker tells the byte order in which the header was written. -/
theorem detectOrder_toBytes (h : BinaryHeader) : detectOrder h.toBytes = h.order := by
  rw [detectOrder, slice_marker]
  cases h.order <;> rfl

theorem formatOfCode_code (f : SampleFormat) : formatOfCode f.code = .ok f := by
  rw [formatOfCode, SampleFormat.ofCode?_code]

theorem load_code (order : ByteOrder) (f : SampleFormat) :
    order.load (order.store 2 f.code) = f.code := by
  rw [ByteOrder.load_store]
  cases f <;> rfl

theorem load_flag (order : ByteOrder) (b : Bool) :
    order.load (order.store 2 b.toNat) = b.toNat := by
  rw [ByteOrder.load_store]
  cases b <;> rfl

/-- **A written header is read back.**  With default settings and in both byte orders, what is
read is what was written, except that an invalid code says nothing. -/
theorem ofBytes_toBytes (h : BinaryHeader) : ofBytes {} h.toBytes = .ok h.settled := by
  have hformat : readFormat h.order {} h.toBytes = .ok h.format := by
    show formatOfCode _ = _
    rw [slice_format, load_code, formatOfCode_code]
  have hflag : flagOfCode (h.order.load (slice h.toBytes flagStart 2)) = .ok h.fixedLength := by
    rw [slice_flag, load_flag]
    cases h.fixedLength <;> rfl
  have hfield : readField h.order {} h.toBytes = h.settled.field := by
    funext f
    have ho : override {} f = none := by cases f <;> rfl
    rw [readField, ho, Option.getD_none, slice_field, FieldKind.decode_encode]
    rfl
  have horder : (({} : Settings).endianness.getD (detectOrder h.toBytes)) = h.order := by
    have hnone : ({} : Settings).endianness = none := rfl
    rw [hnone, Option.getD_none, detectOrder_toBytes]
  rw [ofBytes, horder, hformat, hflag, hfield]
  rfl

/-- What is left of a header once it was written is written as before. -/
theorem toBytes_settled (h : BinaryHeader) : h.settled.toBytes = h.toBytes := by
  have hfields : ∀ f : BinaryField, f.kind.encode h.order (h.settled.field f) =
      f.kind.encode h.order (h.field f) := fun f => FieldKind.encode_settled ..
  simp only [toBytes, pieces, show h.settled.order = h.order from rfl, hfields]
  rfl

/-! #### What cannot be read -/

/-- A 16-bit number of the header, in the byte order of the settings or of the marker. -/
def number (s : Settings) (b : Bytes) (start : Nat) : Nat :=
  (s.endianness.getD (detectOrder b)).load (slice b start 2)

/-- A code is unknown exactly if no format has it. -/
theorem formatOfCode_eq_error_iff {n : Nat} {e : UnknownCode} :
    formatOfCode n = .error e ↔ (∀ f : SampleFormat, f.code ≠ n) ∧ e = .sampleFormat n := by
  rw [formatOfCode]
  cases hcode : SampleFormat.ofCode? n with
  | some f =>
      have hf := List.find?_some hcode
      simp only [beq_iff_eq, Int.natCast_inj] at hf
      simp only [reduceCtorEq, false_iff, not_and]
      exact fun h => absurd hf (h f)
  | none =>
      have hnone := List.find?_eq_none.mp hcode
      simp only [beq_iff_eq, Int.natCast_inj] at hnone
      simp only [Except.error.injEq]
      exact ⟨fun h => ⟨fun f => hnone f f.mem_all, h.symm⟩, fun h => h.2.symm⟩

theorem flagOfCode_eq_error_iff {n : Nat} {e : UnknownCode} :
    flagOfCode n = .error e ↔ n ≠ 0 ∧ n ≠ 1 ∧ e = .fixedLength n := by
  rw [flagOfCode]
  by_cases hzero : n = 0
  · simp [hzero]
  · by_cases hone : n = 1
    · simp [hone]
    · rw [if_neg (by omega), if_neg (by omega), Except.error.injEq]
      simp [hzero, hone, eq_comm]

theorem failsBy_formatOfCode (n : Nat) :
    ((formatOfCode n).mapError Error.unknownCode).FailsBy
      [fun e => (∀ f : SampleFormat, f.code ≠ n) ∧ e = .unknownCode (.sampleFormat n)] := by
  exact Except.failsBy_mapError (fun e => formatOfCode_eq_error_iff) Error.unknownCode

theorem failsBy_flagOfCode (n : Nat) :
    ((flagOfCode n).mapError Error.unknownCode).FailsBy
      [fun e => n ≠ 0 ∧ n ≠ 1 ∧ e = .unknownCode (.fixedLength n)] := by
  have h := Except.failsBy_mapError
    (fun e => flagOfCode_eq_error_iff.trans and_assoc.symm) (x := flagOfCode n) Error.unknownCode
  simpa only [and_assoc] using h

/-- Only the sample format, unless the settings override it, and the flag of fixed-length traces
can be unknown, and the format is looked at first. -/
theorem failsBy_ofBytes (s : Settings) (b : Bytes) :
    ((ofBytes s b).mapError Error.unknownCode).FailsBy
      [fun e => s.format = none ∧ (∀ f : SampleFormat, f.code ≠ number s b formatStart) ∧
          e = .unknownCode (.sampleFormat (number s b formatStart)),
        fun e => number s b flagStart ≠ 0 ∧ number s b flagStart ≠ 1 ∧
          e = .unknownCode (.fixedLength (number s b flagStart))] := by
  have hformat : ((readFormat (s.endianness.getD (detectOrder b)) s b).mapError
      Error.unknownCode).FailsBy [fun e => s.format = none ∧
        (∀ f : SampleFormat, f.code ≠ number s b formatStart) ∧
          e = .unknownCode (.sampleFormat (number s b formatStart))] := by
    refine Except.failsBy_singleton_iff.mpr fun e => ?_
    rw [readFormat]
    cases s.format with
    | some f => simp
    | none =>
        have h := Except.failsBy_singleton_iff.mp (failsBy_formatOfCode (number s b formatStart)) e
        exact h.trans ⟨fun h => ⟨rfl, h⟩, fun h => h.2⟩
  rw [ofBytes, Except.mapError_bind]
  refine hformat.bind fun format _ => ?_
  rw [Except.mapError_bind]
  let order := s.endianness.getD (detectOrder b)
  exact (failsBy_flagOfCode (number s b flagStart)).map fun fixedLength =>
    BinaryHeader.mk (readField order s b) format fixedLength order

end BinaryHeader

/-! ### The tape label -/

namespace TapeLabel

/-- The ranges of the parts. -/
def layout : List (Nat × Nat) :=
  LabelField.all.map (fun f => (f.start, f.width)) ++ [(blockSizeStart, blockSizeWidth)]

theorem disjoint_layout : Disjoint HeaderKind.label.length layout := by
  decide

/-- A file that starts with a C has no label. -/
theorem isPresent_of_isC {image : Image} {c : UInt8} (h : image[0]? = some c) (hc : isC c = true) :
    isPresent image = false := by
  rw [isPresent, h]
  split
  · next hfirst _ =>
    cases hfirst
    rw [hc]
    rfl
  · rfl

@[simp] theorem length_toDigits (width n : Nat) : (toDigits width n).length = width := by
  induction width generalizing n with
  | zero => rfl
  | succ width ih => simp [toDigits, ih]

theorem isDigit_digit (n : Nat) : isDigit (UInt8.ofNat (0x30 + n % 10)) = true := by
  have hlt : n % 10 < 10 := Nat.mod_lt _ (by decide)
  generalize n % 10 = d at hlt
  have hall : ∀ d < 10, isDigit (UInt8.ofNat (0x30 + d)) = true := by decide
  exact hall d hlt

theorem all_isDigit_toDigits (width n : Nat) : (toDigits width n).all isDigit = true := by
  induction width generalizing n with
  | zero => rfl
  | succ width ih =>
      rw [toDigits, List.all_append, ih, List.all_cons, isDigit_digit]
      rfl

/-- The digits of a number spell it. -/
theorem ofDigits_toDigits (width n : Nat) : ofDigits (toDigits width n) = n % 10 ^ width := by
  induction width generalizing n with
  | zero => simp [toDigits, ofDigits, Nat.mod_one]
  | succ width ih =>
      have hd : (UInt8.ofNat (0x30 + n % 10)).toNat - 0x30 = n % 10 := by
        rw [UInt8.toNat_ofNat']
        omega
      rw [toDigits, ofDigits, List.foldl_append, ← ofDigits, ih]
      simp only [List.foldl_cons, List.foldl_nil, hd]
      rw [Nat.pow_succ', Nat.mod_mul]
      omega

theorem not_isBlank_of_isDigit {c : UInt8} (h : isDigit c = true) : isBlank c = false := by
  simp only [isDigit, Bool.and_eq_true, decide_eq_true_eq, UInt8.le_iff_toNat_le] at h
  simp only [isBlank, Bool.or_eq_false_iff, beq_eq_false_iff_ne, ne_eq, Bool.and_eq_false_iff,
    decide_eq_false_iff_not, UInt8.le_iff_toNat_le, ← UInt8.toNat_inj]
  have h₁ : (0x30 : UInt8).toNat = 48 := rfl
  have h₂ : (0x20 : UInt8).toNat = 32 := rfl
  have h₃ : (0x0D : UInt8).toNat = 13 := rfl
  have h₄ : (0 : UInt8).toNat = 0 := rfl
  omega

theorem dropWhile_isBlank_append {blanks : Bytes} (h : blanks.all isBlank = true) (b : Bytes) :
    (blanks ++ b).dropWhile isBlank = b.dropWhile isBlank :=
  List.dropWhile_append_of_pos fun c hc => List.all_eq_true.mp h c hc

theorem dropWhile_isBlank_of_head {b : Bytes} (h : ∀ c ∈ b.head?, isBlank c = false) :
    b.dropWhile isBlank = b := by
  cases b with
  | nil => rfl
  | cons c rest => exact List.dropWhile_cons_of_neg (by simp [h c rfl])

/-- Blanks are cut off up to where there is none. -/
theorem trim_of_ends {before b after : Bytes} (hbefore : before.all isBlank = true)
    (hafter : after.all isBlank = true) (hhead : ∀ c ∈ b.head?, isBlank c = false)
    (hlast : ∀ c ∈ b.getLast?, isBlank c = false) : trim (before ++ (b ++ after)) = b := by
  rw [trim, dropWhile_isBlank_append hbefore]
  cases b with
  | nil =>
      have hnone : after.dropWhile isBlank = [] :=
        List.dropWhile_eq_nil_iff.mpr (List.all_eq_true.mp hafter)
      rw [List.nil_append, hnone]
      rfl
  | cons c rest =>
      have hfront : (c :: rest ++ after).dropWhile isBlank = c :: rest ++ after :=
        dropWhile_isBlank_of_head hhead
      have hback : (c :: rest).reverse.dropWhile isBlank = (c :: rest).reverse :=
        dropWhile_isBlank_of_head (by rwa [List.head?_reverse])
      rw [hfront, List.reverse_append, dropWhile_isBlank_append (by rwa [List.all_reverse]), hback,
        List.reverse_reverse]

/-- Blanks around digits are cut off. -/
theorem trim_of_parts {before digits after : Bytes} (hbefore : before.all isBlank = true)
    (hafter : after.all isBlank = true) (hdigits : digits.all isDigit = true) :
    trim (before ++ (digits ++ after)) = digits := by
  have hdigit : ∀ c ∈ digits, isBlank c = false := fun c hc =>
    not_isBlank_of_isDigit (List.all_eq_true.mp hdigits c hc)
  exact trim_of_ends hbefore hafter (fun c hc => hdigit c (List.mem_of_mem_head? hc))
    fun c hc => hdigit c (List.mem_of_mem_getLast? hc)

/-- There are no blanks around digits. -/
theorem trim_of_digits {b : Bytes} (h : b.all isDigit = true) : trim b = b := by
  have hnone : ([] : Bytes).all isBlank = true := rfl
  have hparts := trim_of_parts hnone hnone h
  rwa [List.nil_append, List.append_nil] at hparts

theorem spans_pieces (l : TapeLabel) : spans l.pieces = layout := by
  simp [spans, pieces, layout, Function.comp_def]

theorem toBytes_eq_ok_iff {l : TapeLabel} {b : Bytes} :
    l.toBytes = .ok b ↔
      l.maxBlockSize.toNat < blockSizeLimit ∧ assemble HeaderKind.label.length l.pieces = b := by
  rw [toBytes]
  split
  · next h => simp [h]
  · next h => simp [h]

/-- A written label has 128 bytes. -/
theorem length_of_toBytes {l : TapeLabel} {b : Bytes} (h : l.toBytes = .ok b) :
    b.length = HeaderKind.label.length := by
  obtain ⟨-, rfl⟩ := toBytes_eq_ok_iff.mp h
  refine Bytes.length_assemble fun p hp => disjoint_layout.1 (p.1, p.2.length) ?_
  exact l.spans_pieces ▸ List.mem_map_of_mem hp

/-- A label is read from where its parts are. -/
theorem ofBytes_of_slices {l : TapeLabel} {b : Bytes} (hn : l.maxBlockSize.toNat < blockSizeLimit)
    (hsize : slice b blockSizeStart blockSizeWidth = toDigits blockSizeWidth l.maxBlockSize.toNat)
    (hfield : ∀ f : LabelField, slice b f.start f.width = (l.field f).toList) :
    ofBytes b = .ok l := by
  have hdigits := all_isDigit_toDigits blockSizeWidth l.maxBlockSize.toNat
  have hmod : l.maxBlockSize.toNat % 10 ^ blockSizeWidth = l.maxBlockSize.toNat :=
    Nat.mod_eq_of_lt hn
  have hne : (toDigits blockSizeWidth l.maxBlockSize.toNat).isEmpty = false := by
    simp [toDigits, blockSizeWidth]
  have hget : ∀ f : LabelField,
      (Vector.ofFn fun i : Fin f.width => b.getD (f.start + i) 0) = l.field f :=
    fun f => by
      apply Vector.ext
      intro i hi
      have hi' := congrArg (fun b => b[i]?) (hfield f)
      simp only [slice, List.getElem?_take_of_lt hi, List.getElem?_drop] at hi'
      simp [List.getD_eq_getElem?_getD, hi', hi]
  simp only [ofBytes, hsize, trim_of_digits hdigits, hdigits, hne, Bool.not_true, Bool.or_self,
    Bool.false_eq_true, if_false, ofDigits_toDigits, hmod, hget, UInt64.ofNat_toNat]

theorem disjoint_pieces (l : TapeLabel) : Disjoint HeaderKind.label.length (spans l.pieces) :=
  l.spans_pieces ▸ disjoint_layout

theorem slice_field (l : TapeLabel) (f : LabelField) :
    slice (assemble HeaderKind.label.length l.pieces) f.start f.width = (l.field f).toList := by
  have hp := Bytes.slice_assemble l.disjoint_pieces (p := (f.start, (l.field f).toList)) (by
    simp only [pieces, List.mem_append, List.mem_map]
    exact .inl ⟨f, f.mem_all, rfl⟩)
  rwa [Vector.length_toList] at hp

theorem slice_blockSize (l : TapeLabel) :
    slice (assemble HeaderKind.label.length l.pieces) blockSizeStart blockSizeWidth =
      toDigits blockSizeWidth l.maxBlockSize.toNat := by
  have hp := Bytes.slice_assemble l.disjoint_pieces
    (p := (blockSizeStart, toDigits blockSizeWidth l.maxBlockSize.toNat)) (by simp [pieces])
  rwa [length_toDigits] at hp

/-- **A written label is read back.** -/
theorem ofBytes_of_toBytes {l : TapeLabel} {b : Bytes} (h : l.toBytes = .ok b) :
    ofBytes b = .ok l := by
  obtain ⟨hn, rfl⟩ := toBytes_eq_ok_iff.mp h
  exact ofBytes_of_slices hn l.slice_blockSize l.slice_field

end TapeLabel

end SegY
