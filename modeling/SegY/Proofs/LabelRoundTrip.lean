import Mathlib.Data.List.Induction
import SegY.Proofs.MalformedFiles

/-!
# The tape label — read and written again

`TapeLabel.ofBytes_of_toBytes` follows a label through its bytes; this module follows bytes through
the label.  The text fields are kept as they are, whatever is in them.  Of the ten characters of the
largest block size only the number is left, which is written with zeros in front of it; and what
stands between the fields is not kept at all.

* `Stripped`: what is left of a text without the blanks at both ends (`stripped_iff`).
* `toDigits_ofDigits`: digits that were read as a number are written with zeros in front of them.
* `toBytes_of_ofBytes`: what becomes of each byte of a label that was read and is written again.
* `label_round_trip`: reading and writing labels undo each other except for this, and what fails.
-/

namespace SegY.TapeLabel
open Bytes (slice spans Apart Covering Disjoint assemble overwriteAll)

/-! ### The number -/

/-- `d` is what is left of `b` once the blanks at both ends are cut off. -/
structure Stripped (b d : Bytes) : Prop where
  parts : ∃ before after, b = before ++ (d ++ after) ∧ before.all isBlank = true ∧
    after.all isBlank = true
  head : ∀ c ∈ d.head?, isBlank c = false
  last : ∀ c ∈ d.getLast?, isBlank c = false

theorem head_dropWhile_isBlank (b : Bytes) :
    ∀ c ∈ (b.dropWhile isBlank).head?, isBlank c = false := by
  intro c hc
  have h := List.head?_dropWhile_not isBlank b
  rw [hc] at h
  exact h

/-- The first byte that is left is the first that is no blank, since no more than the end is cut off
after that. -/
theorem head_trim (b : Bytes) : ∀ c ∈ (trim b).head?, isBlank c = false := by
  intro c hc
  have hprefix : trim b <+: b.dropWhile isBlank := by
    rw [trim, ← List.reverse_suffix, List.reverse_reverse]
    exact List.dropWhile_suffix _
  obtain ⟨rest, hrest⟩ := hprefix
  refine head_dropWhile_isBlank b c ?_
  rw [← hrest, List.head?_append, hc]
  rfl

theorem stripped_iff {b d : Bytes} : Stripped b d ↔ d = trim b := by
  constructor
  · rintro ⟨⟨before, after, rfl, hbefore, hafter⟩, hhead, hlast⟩
    exact (trim_of_ends hbefore hafter hhead hlast).symm
  · rintro rfl
    refine ⟨exists_trim b, head_trim b, fun c hc => ?_⟩
    rw [trim, List.getLast?_reverse] at hc
    exact head_dropWhile_isBlank _ c hc

theorem toDigits_zero (width : Nat) : toDigits width 0 = List.replicate width 0x30 := by
  induction width with
  | zero => rfl
  | succ width ih =>
      rw [toDigits, Nat.zero_div, ih, List.replicate_succ']
      rfl

/-- One more digit. -/
theorem ofDigits_concat (b : Bytes) (c : UInt8) :
    ofDigits (b ++ [c]) = 10 * ofDigits b + (c.toNat - 0x30) := by
  rw [ofDigits, List.foldl_append]
  rfl

/-- Digits that were read as a number are written with zeros in front of them. -/
theorem toDigits_ofDigits {b : Bytes} (h : b.all isDigit = true) {width : Nat}
    (hb : b.length ≤ width) :
    toDigits width (ofDigits b) = List.replicate (width - b.length) 0x30 ++ b := by
  induction b using List.reverseRecOn generalizing width with
  | nil => rw [List.append_nil]; exact toDigits_zero width
  | append_singleton b c ih =>
      rw [List.all_append, Bool.and_eq_true, List.all_cons, Bool.and_eq_true] at h
      obtain ⟨hdigits, hc, -⟩ := h
      rw [List.length_append, List.length_singleton] at hb ⊢
      obtain ⟨width, rfl⟩ : ∃ m, width = m + 1 := ⟨width - 1, by omega⟩
      simp only [isDigit, Bool.and_eq_true, decide_eq_true_eq, UInt8.le_iff_toNat_le] at hc
      have hlow : (0x30 : UInt8).toNat = 48 := rfl
      have hhigh : (0x39 : UInt8).toNat = 57 := rfl
      have hrest : (10 * ofDigits b + (c.toNat - 0x30)) / 10 = ofDigits b := by omega
      have hlast : UInt8.ofNat (0x30 + (10 * ofDigits b + (c.toNat - 0x30)) % 10) = c := by
        apply UInt8.toNat_inj.mp
        rw [UInt8.toNat_ofNat']
        omega
      rw [ofDigits_concat, toDigits, hrest, hlast, ih hdigits (by omega), Nat.add_sub_add_right,
        List.append_assoc]

/-! ### What is read -/

theorem field_of_ofBytes {b : Bytes} (hb : b.length = HeaderKind.label.length) {l : TapeLabel}
    (hread : ofBytes b = .ok l) (f : LabelField) :
    (l.field f).toList = slice b f.start f.width := by
  have hmem : (f.start, f.width) ∈ layout :=
    List.mem_append_left _ (List.mem_map_of_mem f.mem_all)
  have hlength := disjoint_layout.length_slice hb hmem
  have hend := disjoint_layout.1 _ hmem
  rw [ofBytes] at hread
  split at hread <;> cases hread
  refine List.ext_getElem (by rw [hlength, Vector.length_toList]) fun i hi _ => ?_
  rw [Vector.length_toList] at hi
  have hin : f.start + i < b.length := by omega
  simp [slice, List.getD_eq_getElem?_getD, hin]

/-! ### What is written again -/

/-- The ranges that belong to no part. -/
def gaps : List (Nat × Nat) := [(62, 6), (118, 10)]

/-- What is different about a label with these digits for its number once it is written: the number
has ten digits, and what belongs to no part is zero. -/
def changes (digits : Bytes) : List (Nat × Bytes) :=
  [(blockSizeStart, List.replicate (blockSizeWidth - digits.length) 0x30 ++ digits),
    (62, List.replicate 6 0), (118, List.replicate 10 0)]

/-- The parts and what belongs to none of them are all there is. -/
theorem covering_layout : Covering HeaderKind.label.length (layout ++ gaps) :=
  Disjoint.covering (by decide) (by decide)

theorem slice_gap (l : TapeLabel) {r : Nat × Nat} (hr : r ∈ gaps) :
    slice (assemble HeaderKind.label.length l.pieces) r.1 r.2 = List.replicate r.2 0 := by
  have hmem : ∀ p ∈ l.pieces, (p.1, p.2.length) ∈ layout := fun p hp =>
    l.spans_pieces ▸ List.mem_map_of_mem hp
  have hapart : ∀ s ∈ layout, Apart r s := by
    revert r
    decide
  rw [Bytes.assemble_eq, Bytes.slice_overwriteAll_of_apart (fun p hp => ?_)
    fun p hp => hapart _ (hmem p hp)]
  · revert r
    decide
  · rw [List.length_replicate]
    exact disjoint_layout.1 _ (hmem p hp)

section Changes

variable {b digits : Bytes} (hb : b.length = HeaderKind.label.length)
  (hdigits : digits.length ≤ blockSizeWidth)
include hdigits

theorem spans_changes : spans (changes digits) = (blockSizeStart, blockSizeWidth) :: gaps := by
  simp [spans, changes, gaps, hdigits]

include hb

theorem disjoint_changes : Disjoint b.length (spans (changes digits)) := by
  rw [spans_changes hdigits, hb]
  decide

theorem length_changed : (overwriteAll b (changes digits)).length = HeaderKind.label.length := by
  rw [Bytes.length_overwriteAll fun p hp =>
    (disjoint_changes hb hdigits).1 _ (List.mem_map_of_mem hp), hb]

theorem slice_changed {p : Nat × Bytes} (hp : p ∈ changes digits) :
    slice (overwriteAll b (changes digits)) p.1 p.2.length = p.2 :=
  Bytes.slice_overwriteAll (disjoint_changes hb hdigits) hp

theorem slice_changed_number :
    slice (overwriteAll b (changes digits)) blockSizeStart blockSizeWidth =
      List.replicate (blockSizeWidth - digits.length) 0x30 ++ digits := by
  have hpadded := slice_changed hb hdigits (p := (blockSizeStart, _)) List.mem_cons_self
  have hten : (List.replicate (blockSizeWidth - digits.length) (0x30 : UInt8) ++ digits).length =
      blockSizeWidth := by simp [hdigits]
  rwa [hten] at hpadded

theorem slice_changed_gap {r : Nat × Nat} (hr : r ∈ gaps) :
    slice (overwriteAll b (changes digits)) r.1 r.2 = List.replicate r.2 0 := by
  have hzeros : (r.1, List.replicate r.2 0) ∈ changes digits := by
    rcases List.mem_cons.mp hr with rfl | hr
    · simp [changes]
    · cases List.mem_singleton.mp hr
      simp [changes]
  have hfound := slice_changed hb hdigits hzeros
  rwa [List.length_replicate] at hfound

/-- The text fields are not among what is different. -/
theorem slice_changed_field (f : LabelField) :
    slice (overwriteAll b (changes digits)) f.start f.width = slice b f.start f.width := by
  have hapart : ∀ s ∈ (blockSizeStart, blockSizeWidth) :: gaps, Apart (f.start, f.width) s := by
    cases f <;> decide
  have hmem : ∀ p ∈ changes digits, (p.1, p.2.length) ∈ spans (changes digits) := fun p hp =>
    List.mem_map_of_mem hp
  refine Bytes.slice_overwriteAll_of_apart
    (fun p hp => (disjoint_changes hb hdigits).1 _ (hmem p hp)) fun p hp => hapart _ ?_
  exact spans_changes hdigits ▸ hmem p hp

end Changes

/-- **What is written of a label that was read**: each text field as it was, the number in ten
digits, and zeros between the fields. -/
theorem toBytes_of_ofBytes {b : Bytes} (hb : b.length = HeaderKind.label.length) {l : TapeLabel}
    (hread : ofBytes b = .ok l) :
    l.toBytes = .ok (overwriteAll b (changes (trim (slice b blockSizeStart blockSizeWidth)))) := by
  have hspells := spellsNumber_of_ofBytes hread
  have hnumber := maxBlockSize_of_ofBytes hread
  have hroom : (slice b blockSizeStart blockSizeWidth).length ≤ blockSizeWidth :=
    Bytes.slice_length_le ..
  have hlt := ofDigits_trim_lt_limit hroom hspells
  have hlength := Nat.le_trans (length_trim_le _) hroom
  have hdigits := (spellsNumber_iff.mp hspells).2
  generalize trim (slice b blockSizeStart blockSizeWidth) = digits at *
  have hwritten : l.toBytes = .ok (assemble HeaderKind.label.length l.pieces) :=
    toBytes_eq_ok_iff.mpr ⟨by rwa [hnumber], rfl⟩
  rw [hwritten, Except.ok.injEq]
  refine Bytes.ext_of_covering covering_layout (length_of_toBytes hwritten)
    (length_changed hb hlength) fun r hr => ?_
  rcases List.mem_append.mp hr with hr | hr
  · rcases List.mem_append.mp hr with hr | hr
    · obtain ⟨f, -, rfl⟩ := List.mem_map.mp hr
      rw [slice_changed_field hb hlength, slice_field, field_of_ofBytes hb hread]
    · cases List.mem_singleton.mp hr
      rw [slice_changed_number hb hlength, slice_blockSize, hnumber,
        toDigits_ofDigits hdigits hlength]
  · rw [slice_changed_gap hb hlength hr, slice_gap l hr]

/-! ### Both ways -/

/-- No number is spelled if nothing is left, or something else than a digit. -/
theorem not_spellsNumber_iff {b : Bytes} :
    ¬ SpellsNumber b ↔ trim b = [] ∨ ∃ c ∈ trim b, isDigit c = false := by
  simp only [spellsNumber_iff, not_and_or, not_not, List.all_eq_true, not_forall,
    Bool.not_eq_true, exists_prop]

theorem toBytes_eq_error_iff {l : TapeLabel} {e : HeaderError} :
    l.toBytes = .error e ↔
      blockSizeLimit ≤ l.maxBlockSize.toNat ∧ e = .blockSizeRange l.maxBlockSize.toNat := by
  rw [toBytes]
  split
  · next hlt => simp only [reduceCtorEq, Nat.not_le.mpr hlt, false_and]
  · next hge => simp only [Except.error.injEq, Nat.not_lt.mp hge, true_and, eq_comm]

theorem decode_of_length {b : Bytes} (hb : b.length = HeaderKind.label.length) :
    decode b = (ofBytes b).mapError .header := if_pos hb

/-- **The codec of tape labels, both ways.**  A label cannot be written exactly if its largest
block size has more than ten digits; one that is written has 128 bytes, and is read back as it was.

And 128 bytes are no label exactly if the ten bytes at 19, without the NULs and the white space at
both ends, are empty or have something else than a decimal digit among them.  The label that they
are is written as the same bytes, but for the number, which is the same with zeros in front of it,
and the bytes that belong to no part, which are zero. -/
theorem label_round_trip :
    (∀ l : TapeLabel,
      (∀ e, l.toBytes = .error e ↔
        10 ^ 10 ≤ l.maxBlockSize.toNat ∧ e = .blockSizeRange l.maxBlockSize.toNat) ∧
      (l.maxBlockSize.toNat < 10 ^ 10 →
        ∃ b, l.toBytes = .ok b ∧ b.length = 128 ∧ decode b = .ok l)) ∧
    ∀ b : Bytes, b.length = 128 → ∃ digits, Stripped (slice b 19 10) digits ∧
      (∀ e, decode b = .error e ↔ (digits = [] ∨ ∃ c ∈ digits, isDigit c = false) ∧
        e = .header (.blockSizeText digits)) ∧
      (digits ≠ [] → (∀ c ∈ digits, isDigit c = true) → ∃ l, decode b = .ok l ∧
        l.maxBlockSize.toNat = ofDigits digits ∧ digits.length ≤ 10 ∧
        l.toBytes = .ok (overwriteAll b [
          (19, List.replicate (10 - digits.length) 0x30 ++ digits),
          (62, List.replicate 6 0), (118, List.replicate 10 0)])) := by
  refine ⟨fun l => ⟨fun e => toBytes_eq_error_iff, fun hlt => ?_⟩, fun b hb => ?_⟩
  · have hwritten := toBytes_eq_ok_iff.mpr ⟨hlt, rfl⟩
    have hlength := length_of_toBytes hwritten
    refine ⟨_, hwritten, hlength, ?_⟩
    rw [decode_of_length hlength, ofBytes_of_toBytes hwritten, Except.mapError_ok]
  · refine ⟨trim (slice b 19 10), stripped_iff.mpr rfl, fun e => ?_, fun hne hdigits => ?_⟩
    · have hfails := Except.failsBy_mapError (fun e => ofBytes_eq_error_iff (b := b)) Error.header
      rw [← not_spellsNumber_iff, decode_of_length hb]
      exact Except.failsBy_singleton_iff.mp hfails e
    · have hspells := spellsNumber_iff.mpr ⟨hne, List.all_eq_true.mpr hdigits⟩
      obtain ⟨l, hread⟩ : ∃ l, ofBytes b = .ok l := by
        by_contra hno
        obtain ⟨e, he⟩ := Except.exists_error_iff.mpr hno
        exact (ofBytes_eq_error_iff.mp he).1 hspells
      refine ⟨l, ?_, maxBlockSize_of_ofBytes hread, ?_, toBytes_of_ofBytes hb hread⟩
      · rw [decode_of_length hb, hread, Except.mapError_ok]
      · exact Nat.le_trans (length_trim_le _) (Bytes.slice_length_le ..)

/-- A label with the block size 42 between a blank and NULs, a text of one byte, and a byte 9 that
belongs to no part. -/
def looseBytes : Bytes := assemble 128 [(19, [0x20, 0x34, 0x32]), (62, [9]), (104, [0x41])]

/-- The number is written in ten digits, the stray byte is gone, and the text is still there. -/
theorem label_round_trip_looseBytes : ∃ l b, decode looseBytes = .ok l ∧
    l.maxBlockSize.toNat = 42 ∧ l.toBytes = .ok b ∧
    slice b 19 10 = [0x30, 0x30, 0x30, 0x30, 0x30, 0x30, 0x30, 0x30, 0x34, 0x32] ∧
    b[62]? = some 0 ∧ b[104]? = some 0x41 := by
  obtain ⟨digits, hstripped, -, hread⟩ := label_round_trip.2 looseBytes (by decide +kernel)
  obtain rfl : digits = [0x34, 0x32] := (stripped_iff.mp hstripped).trans (by decide +kernel)
  have hdigits : ([0x34, 0x32] : Bytes).all isDigit = true := rfl
  obtain ⟨l, hl, hnumber, -, hwritten⟩ := hread (by decide) (List.all_eq_true.mp hdigits)
  exact ⟨l, _, hl, hnumber.trans (by decide), hwritten, by decide +kernel, by decide +kernel,
    by decide +kernel⟩

end SegY.TapeLabel
