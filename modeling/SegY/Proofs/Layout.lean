import Mathlib.Data.List.Nodup
import Mathlib.Data.List.Pairwise
import Mathlib.Data.List.Perm.Subperm
import SegY.Bytes

/-!
# Bytes — ranges of a string, and pieces laid out in it

* `slice_overwriteAll`, `slice_assemble`: pieces that do not meet are all found again where they
  were put.
* `slice_overwriteAll_of_later`: more generally a piece is found again unless a later one meets it.
* `length_overwriteAll`, `length_assemble`: pieces inside a string leave it as long as it was.
* `Disjoint.covering`: ranges that do not meet and are as long as the string leave nothing out.
* `ext_of_covering`: strings are the same if they are in ranges that leave nothing out.

A layout is judged by the ranges of its pieces alone (`spans`, `Disjoint`), so that the layout of
a header is one closed table whatever its fields hold.
-/

namespace SegY.Bytes

/-! ### Ranges -/

@[simp] theorem slice_length_le (b : Bytes) (start length : Nat) :
    (slice b start length).length ≤ length := by
  simp only [slice, List.length_take]
  omega

/-- A range of a range. -/
theorem slice_slice {b : Bytes} {start length pos width : Nat} (h : pos + width ≤ length) :
    slice (slice b start length) pos width = slice b (start + pos) width := by
  simp only [slice, List.drop_take, List.take_take, List.drop_drop]
  rw [Nat.min_eq_left (by omega)]

/-- Ranges that follow each other make up one range. -/
theorem slice_append_slice (b : Bytes) (start length more : Nat) :
    slice b start length ++ slice b (start + length) more = slice b start (length + more) := by
  simp only [slice, List.take_add, List.drop_drop]

/-- A range, and what follows it. -/
theorem drop_eq_slice_append (b : Bytes) (start length : Nat) :
    b.drop start = slice b start length ++ b.drop (start + length) := by
  rw [slice, ← List.drop_drop, List.take_append_drop]

/-- A range that begins after the first of two strings lies in the second. -/
theorem slice_append_of_le {a b : Bytes} {start length : Nat} (h : a.length ≤ start) :
    slice (a ++ b) start length = slice b (start - a.length) length := by
  simp only [slice, List.drop_append, List.drop_eq_nil_of_le h, List.nil_append]

/-- A range that ends inside the first of two strings lies in it. -/
theorem slice_append_of_fits {a b : Bytes} {start length : Nat} (h : start + length ≤ a.length) :
    slice (a ++ b) start length = slice a start length := by
  simp only [slice, List.drop_append]
  rw [List.take_append_of_le_length (by simp only [List.length_drop]; omega)]

/-- What stands between two strings. -/
theorem slice_append_mid (a b c : Bytes) : slice (a ++ (b ++ c)) a.length b.length = b := by
  simp only [slice, List.drop_left, List.take_left]

/-! ### Chunks of one width -/

section Chunks

variable {chunks : List Bytes} {width : Nat} (h : ∀ c ∈ chunks, c.length = width)
include h

theorem length_flatten_of_width : chunks.flatten.length = chunks.length * width := by
  induction chunks with
  | nil => simp
  | cons c rest ih =>
      rw [List.flatten_cons, List.length_append, h c List.mem_cons_self,
        ih fun d hd => h d (List.mem_cons_of_mem _ hd), List.length_cons, Nat.succ_mul,
        Nat.add_comm]

theorem slice_flatten {k : Nat} (hk : k < chunks.length) :
    slice chunks.flatten (k * width) width = chunks[k] := by
  induction chunks generalizing k with
  | nil => exact absurd hk (Nat.not_lt_zero k)
  | cons c rest ih =>
      have hc : c.length = width := h c List.mem_cons_self
      rw [List.flatten_cons]
      cases k with
      | zero =>
          rw [Nat.zero_mul, slice_append_of_fits (by omega), ← hc]
          exact List.take_length
      | succ k =>
          rw [slice_append_of_le (by rw [hc, Nat.succ_mul]; omega), hc, Nat.succ_mul,
            Nat.add_sub_cancel]
          exact ih (fun d hd => h d (List.mem_cons_of_mem _ hd)) (Nat.lt_of_succ_lt_succ hk)

/-- All chunks are found, one after the other. -/
theorem map_slice_flatten :
    ((List.range chunks.length).map fun k => slice chunks.flatten (k * width) width) = chunks := by
  apply List.ext_getElem
  · rw [List.length_map, List.length_range]
  · intro k hk hk'
    rw [List.getElem_map, List.getElem_range, slice_flatten h hk']

end Chunks

/-- Ranges of one width that follow each other make up the beginning of a string. -/
theorem flatten_slices (b : Bytes) (count width : Nat) :
    ((List.range count).map fun k => slice b (k * width) width).flatten =
      b.take (count * width) := by
  induction count with
  | zero => simp
  | succ count ih =>
      rw [List.range_succ, List.map_append, List.flatten_append, ih, List.map_singleton,
        List.flatten_singleton, slice, Nat.succ_mul, List.take_add]

/-- A string that is a whole number of times as long as a chunk is made of chunks. -/
theorem exists_chunks {b : Bytes} {width : Nat} (h : width ∣ b.length) :
    ∃ chunks : List Bytes, (∀ c ∈ chunks, c.length = width) ∧ b = chunks.flatten ∧
      b.length = chunks.length * width := by
  obtain ⟨count, hcount⟩ := h
  rw [Nat.mul_comm] at hcount
  refine ⟨(List.range count).map fun k => slice b (k * width) width, ?_, ?_, ?_⟩
  · intro c hc
    obtain ⟨k, hk, rfl⟩ := List.mem_map.mp hc
    have hle : (k + 1) * width ≤ count * width :=
      Nat.mul_le_mul_right _ (List.mem_range.mp hk)
    rw [Nat.succ_mul] at hle
    rw [slice, List.length_take, List.length_drop]
    omega
  · rw [flatten_slices, ← hcount, List.take_length]
  · rw [List.length_map, List.length_range, hcount]

/-! ### Pieces written over a string -/

/-- The ranges that pieces cover, as positions and lengths. -/
def spans (pieces : List (Nat × Bytes)) : List (Nat × Nat) := pieces.map fun p => (p.1, p.2.length)

/-- Two ranges do not meet. -/
def Apart (s t : Nat × Nat) : Prop := s.1 + s.2 ≤ t.1 ∨ t.1 + t.2 ≤ s.1

instance (s t : Nat × Nat) : Decidable (Apart s t) := inferInstanceAs (Decidable (_ ∨ _))

/-- Ranges inside a string of this length, of which no two meet. -/
def Disjoint (length : Nat) (ranges : List (Nat × Nat)) : Prop :=
  (∀ s ∈ ranges, s.1 + s.2 ≤ length) ∧ ranges.Pairwise Apart

instance (length : Nat) (ranges : List (Nat × Nat)) : Decidable (Disjoint length ranges) :=
  inferInstanceAs (Decidable (_ ∧ _))

instance : Std.Symm Apart := ⟨fun _ _ => Or.symm⟩

/-- Ranges of which each ends before the next one starts do not meet. -/
theorem pairwise_apart_of_isChain {ranges : List (Nat × Nat)}
    (h : ranges.IsChain fun s t => s.1 + s.2 ≤ t.1) : ranges.Pairwise Apart := by
  have htrans : IsTrans (Nat × Nat) fun s t => s.1 + s.2 ≤ t.1 :=
    ⟨fun _ _ _ hst htu => Nat.le_trans hst (Nat.le_of_add_right_le htu)⟩
  exact (List.isChain_iff_pairwise.mp h).imp .inl

/-- Of ranges that do not meet, any two are the same or apart. -/
theorem Disjoint.eq_or_apart {length : Nat} {ranges : List (Nat × Nat)}
    (h : Disjoint length ranges) {s t : Nat × Nat} (hs : s ∈ ranges) (ht : t ∈ ranges) :
    s = t ∨ Apart s t := by
  by_cases hne : s = t
  · exact .inl hne
  · exact .inr (h.2.forall hs ht hne)

theorem Disjoint.sublist {length : Nat} {ranges ranges' : List (Nat × Nat)}
    (h : Disjoint length ranges) (hsub : ranges'.Sublist ranges) : Disjoint length ranges' :=
  ⟨fun s hs => h.1 s (hsub.subset hs), h.2.sublist hsub⟩

/-- Ranges inside a string are whole. -/
theorem Disjoint.length_slice {length : Nat} {ranges : List (Nat × Nat)}
    (h : Disjoint length ranges) {b : Bytes} (hb : b.length = length) {r : Nat × Nat}
    (hr : r ∈ ranges) : (slice b r.1 r.2).length = r.2 := by
  have hin := h.1 r hr
  rw [slice, List.length_take, List.length_drop]
  omega

/-- Pieces written over a string, one after the other. -/
def overwriteAll (b : Bytes) (pieces : List (Nat × Bytes)) : Bytes :=
  pieces.foldl (fun b p => overwrite b p.1 p.2) b

theorem assemble_eq (length : Nat) (pieces : List (Nat × Bytes)) :
    assemble length pieces = overwriteAll (List.replicate length 0) pieces := rfl

theorem overwriteAll_append (b : Bytes) (pieces pieces' : List (Nat × Bytes)) :
    overwriteAll b (pieces ++ pieces') = overwriteAll (overwriteAll b pieces) pieces' :=
  List.foldl_append

theorem length_overwriteAll {b : Bytes} {pieces : List (Nat × Bytes)}
    (h : ∀ p ∈ pieces, p.1 + p.2.length ≤ b.length) :
    (overwriteAll b pieces).length = b.length := by
  induction pieces generalizing b with
  | nil => rfl
  | cons p rest ih =>
      have hp : (overwrite b p.1 p.2).length = b.length :=
        length_overwrite (h p (List.mem_cons_self ..))
      rw [overwriteAll, List.foldl_cons, ← overwriteAll, ih fun q hq => ?_, hp]
      rw [hp]
      exact h q (List.mem_cons_of_mem _ hq)

/-- What no piece meets stays as it is. -/
theorem slice_overwriteAll_of_apart {b : Bytes} {pieces : List (Nat × Bytes)} {pos length : Nat}
    (h : ∀ p ∈ pieces, p.1 + p.2.length ≤ b.length)
    (ha : ∀ p ∈ pieces, Apart (pos, length) (p.1, p.2.length)) :
    slice (overwriteAll b pieces) pos length = slice b pos length := by
  induction pieces generalizing b with
  | nil => rfl
  | cons p rest ih =>
      have hp := h p (List.mem_cons_self ..)
      rw [overwriteAll, List.foldl_cons, ← overwriteAll, ih (fun q hq => ?_)
        fun q hq => ha q (List.mem_cons_of_mem _ hq)]
      · exact slice_overwrite_of_disjoint hp (ha p (List.mem_cons_self ..))
      · rw [length_overwrite hp]
        exact h q (List.mem_cons_of_mem _ hq)

/-- Pieces inside a string leave it as long as it was. -/
theorem length_assemble {length : Nat} {pieces : List (Nat × Bytes)}
    (h : ∀ p ∈ pieces, p.1 + p.2.length ≤ length) : (assemble length pieces).length = length := by
  rw [assemble_eq, length_overwriteAll fun p hp => by simpa using h p hp, List.length_replicate]

/-- A piece that no later one meets is found again where it was put. -/
theorem slice_overwriteAll_of_later {b : Bytes} {before after : List (Nat × Bytes)}
    {p : Nat × Bytes} (h : ∀ q ∈ before ++ p :: after, q.1 + q.2.length ≤ b.length)
    (ha : ∀ q ∈ after, Apart (p.1, p.2.length) (q.1, q.2.length)) :
    slice (overwriteAll b (before ++ p :: after)) p.1 p.2.length = p.2 := by
  have hb : (overwriteAll b before).length = b.length :=
    length_overwriteAll fun q hq => h q (List.mem_append_left _ hq)
  have hp : p.1 + p.2.length ≤ b.length := h p (by simp)
  rw [overwriteAll, List.foldl_append, List.foldl_cons, ← overwriteAll, ← overwriteAll,
    slice_overwriteAll_of_apart (fun q hq => ?_) ha]
  · exact slice_overwrite_self (by omega)
  · rw [length_overwrite (by omega), hb]
    exact h q (by simp [hq])

/-- Pieces that do not meet are all found again where they were put. -/
theorem slice_overwriteAll {b : Bytes} {pieces : List (Nat × Bytes)} {p : Nat × Bytes}
    (h : Disjoint b.length (spans pieces)) (hp : p ∈ pieces) :
    slice (overwriteAll b pieces) p.1 p.2.length = p.2 := by
  obtain ⟨hin, hd⟩ := h
  obtain ⟨before, after, rfl⟩ := List.append_of_mem hp
  rw [spans, List.pairwise_map, List.pairwise_append] at hd
  refine slice_overwriteAll_of_later (fun q hq => hin _ (List.mem_map_of_mem hq)) fun q hq => ?_
  exact (List.pairwise_cons.mp hd.2.1).1 q hq

theorem slice_assemble {length : Nat} {pieces : List (Nat × Bytes)} {p : Nat × Bytes}
    (h : Disjoint length (spans pieces)) (hp : p ∈ pieces) :
    slice (assemble length pieces) p.1 p.2.length = p.2 := by
  rw [assemble_eq]
  exact slice_overwriteAll (by rwa [List.length_replicate]) hp

/-! ### Strings that agree -/

/-- Strings have the same byte where they have the same range of one byte. -/
theorem getElem?_eq_of_slice {a b : Bytes} {i : Nat} (h : slice a i 1 = slice b i 1) :
    a[i]? = b[i]? := by
  have h0 := congrArg (·[0]?) h
  simpa only [slice, List.getElem?_take_of_lt Nat.one_pos, List.getElem?_drop,
    Nat.add_zero] using h0

/-- A byte that no piece meets is zero. -/
theorem getElem?_assemble_of_apart {length : Nat} {pieces : List (Nat × Bytes)} {i : Nat}
    (h : ∀ p ∈ pieces, p.1 + p.2.length ≤ length) (hi : i < length)
    (ha : ∀ p ∈ pieces, Apart (i, 1) (p.1, p.2.length)) :
    (assemble length pieces)[i]? = some 0 := by
  have hslice := slice_overwriteAll_of_apart (b := List.replicate length 0)
    (fun p hp => by simpa using h p hp) ha
  rw [assemble_eq, getElem?_eq_of_slice hslice, List.getElem?_replicate, if_pos hi]

/-- Ranges that leave nothing out of a string of this length. -/
def Covering (length : Nat) (ranges : List (Nat × Nat)) : Prop :=
  ∀ i < length, ∃ r ∈ ranges, r.1 ≤ i ∧ i < r.1 + r.2

instance (length : Nat) (ranges : List (Nat × Nat)) : Decidable (Covering length ranges) :=
  inferInstanceAs (Decidable (∀ i < length, _))

/-- Ranges that do not meet leave nothing out of a string that is no longer than they are
together. -/
theorem Disjoint.covering {length : Nat} {ranges : List (Nat × Nat)} (h : Disjoint length ranges)
    (htotal : length ≤ ranges.foldr (fun r n => r.2 + n) 0) : Covering length ranges := by
  -- The positions in the ranges, each of them once, are as many as the string has.
  let positions := ranges.flatMap fun r => List.range' r.1 r.2
  have hnodup : positions.Nodup := by
    refine List.nodup_flatMap.mpr ⟨fun r _ => List.nodup_range', h.2.imp fun hapart i hs ht => ?_⟩
    rw [List.mem_range'_1] at hs ht
    rcases hapart with hbefore | hafter <;> omega
  have hsubset : positions ⊆ List.range length := fun i hi => by
    obtain ⟨r, hr, hmem⟩ := List.mem_flatMap.mp hi
    rw [List.mem_range'_1] at hmem
    exact List.mem_range.mpr (Nat.lt_of_lt_of_le hmem.2 (h.1 r hr))
  have hcount : (List.range length).length ≤ positions.length := by
    simpa [positions, List.length_flatMap, List.sum_eq_foldr, List.foldr_map] using htotal
  intro i hi
  have hmem := ((List.subperm_of_subset hnodup hsubset).perm_of_length_le hcount).mem_iff.mpr
    (List.mem_range.mpr hi)
  obtain ⟨r, hr, hin⟩ := List.mem_flatMap.mp hmem
  exact ⟨r, hr, List.mem_range'_1.mp hin⟩

/-- Strings are the same if they are in ranges that leave nothing out. -/
theorem ext_of_covering {length : Nat} {ranges : List (Nat × Nat)} (h : Covering length ranges)
    {a b : Bytes} (ha : a.length = length) (hb : b.length = length)
    (hslice : ∀ r ∈ ranges, slice a r.1 r.2 = slice b r.1 r.2) : a = b := by
  apply List.ext_getElem?
  intro i
  by_cases hi : i < length
  · obtain ⟨r, hr, hlow, hhigh⟩ := h i hi
    have hi' := congrArg (·[i - r.1]?) (hslice r hr)
    have hin : i - r.1 < r.2 := by omega
    simpa only [slice, List.getElem?_take, if_pos hin, List.getElem?_drop,
      Nat.add_sub_cancel' hlow] using hi'
  · rw [List.getElem?_eq_none (by omega), List.getElem?_eq_none (by omega)]

end SegY.Bytes

namespace SegY

/-- A range of a range of a file. -/
theorem Image.slice_slice {image : Image} {start length pos width : Nat}
    (h : pos + width ≤ length) :
    Bytes.slice (image.slice start length) pos width = image.slice (start + pos) width := by
  rw [Image.slice_eq, Image.slice_eq, Bytes.slice_slice h]

/-- A range inside a file is as long as it says. -/
theorem Image.length_slice {image : Image} {start length : Nat}
    (h : start + length ≤ image.size) : (image.slice start length).length = length := by
  rw [Image.slice, Array.length_toList, Array.size_extract]
  omega

/-- What stands in a file between other bytes. -/
theorem Image.slice_of_append {image : Image} {a b c : Bytes} (h : image.toList = a ++ (b ++ c)) :
    image.slice a.length b.length = b := by
  rw [Image.slice_eq, h, Bytes.slice_append_mid]

end SegY
