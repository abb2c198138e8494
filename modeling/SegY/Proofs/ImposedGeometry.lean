import SegY.Proofs.FileCodec
import SegY.Proofs.OpenedFiles
import SegY.Proofs.SettingCalls

/-!
# Imposed geometry — the lines of a regular survey

A caller who knows the shape of a survey imposes it, and the lines of each trace then follow from
its ordinal.  Ordinals are divided with truncation toward zero, quotient and remainder are narrowed
to 32 bits, and the bounds that the dimensions imply decide which traces are given.  All of this is
exact: the ordinals of the survey are given with their lines, and no others.

* `Settings.imposed_ofCalls`: what is left of two dimensions that nothing replaced.
* `Settings.Imposed.toInt_lines`: no line is cut off when it is narrowed.
* `Settings.Imposed.inBounds_iff_ordinal`: which traces are of interest.
* `File.imposed_geometry`: what a file is opened to.
-/

namespace SegY

/-- A header is on the lines of an ordinal, in a survey of `y` inlines with `x` crosslines each. -/
structure TraceHeader.Located (x y : Int32) (ordinal : Int) (h : TraceHeader) : Prop where
  ordinal_eq : h.inline.toInt * x.toInt + h.crossline.toInt = ordinal
  crossline_nonneg : 0 ≤ h.crossline.toInt
  crossline_lt : h.crossline.toInt < x.toInt
  inline_nonneg : 0 ≤ h.inline.toInt
  inline_lt : h.inline.toInt < y.toInt

namespace TraceHeader.Located

variable {x y : Int32} {o : Int} {h : TraceHeader} (hl : h.Located x y o)
include hl

/-- The lines are quotient and remainder. -/
theorem lines_eq : h.crossline = Int32.ofInt (o % x.toInt) ∧
    h.inline = Int32.ofInt (o / x.toInt) := by
  have hx : 0 < x.toInt := Int.lt_of_le_of_lt hl.crossline_nonneg hl.crossline_lt
  have hsum : h.crossline.toInt + x.toInt * h.inline.toInt = o := by
    rw [Int.add_comm, Int.mul_comm, hl.ordinal_eq]
  obtain ⟨hquotient, hremainder⟩ := (Int.ediv_emod_unique hx).mpr
    ⟨hsum, hl.crossline_nonneg, hl.crossline_lt⟩
  rw [hquotient, hremainder, Int32.ofInt_toInt, Int32.ofInt_toInt]
  exact ⟨rfl, rfl⟩

/-- Nothing else is on the same lines. -/
theorem ordinal_unique {o' : Int} {h' : TraceHeader} (hl' : h'.Located x y o')
    (hcrossline : h'.crossline = h.crossline) (hinline : h'.inline = h.inline) : o' = o := by
  rw [← hl.ordinal_eq, ← hl'.ordinal_eq, hcrossline, hinline]

end TraceHeader.Located

/-! ### Ordinals -/

namespace TraceHeader

/-- An ordinal that is a header field is a 32-bit number. -/
theorem ordinal_bounds {order : TraceOrder} (h : order ≠ .position)
    (field : (f : TraceField) → f.Value) (position : Int) :
    Int32.minValue.toInt ≤ ordinal order field position ∧
      ordinal order field position ≤ Int32.maxValue.toInt := by
  cases order with
  | position => exact absurd rfl h
  | sequenceInLine | sequenceInFile | fieldRecord | numberInFieldRecord | numberInEnsemble =>
      exact ⟨Int32.minValue_le_toInt _, Int32.toInt_le _⟩

/-- Where the number of crosslines is imposed, the lines of a header follow from its ordinal. -/
theorem lines_of_dimX {order : ByteOrder} {s : Settings} {position : Int} {b : Bytes}
    {header : TraceHeader} {dim : Nat} (hdim : s.dimX = some dim)
    (h : ofBytes order s position b = .ok header) :
    header.inline = Int32.ofInt ((ordinal s.order header.field position).tdiv dim) ∧
      header.crossline = Int32.ofInt ((ordinal s.order header.field position).tmod dim) := by
  unfold ofBytes at h
  split at h
  · cases h
  · cases h
    simp only [readLines, hdim, and_self]

end TraceHeader

/-- A quotient and a remainder are those of a place in a grid exactly if the number is in the grid.
For a number below zero one of the two is below zero. -/
theorem tdiv_tmod_bounds_iff {o x y : Int} (hx : 0 < x) :
    (0 ≤ o.tdiv x ∧ o.tdiv x < y) ∧ (0 ≤ o.tmod x ∧ o.tmod x < x) ↔ 0 ≤ o ∧ o < x * y := by
  have hsum : x * o.tdiv x + o.tmod x = o := Int.mul_tdiv_add_tmod o x
  constructor
  · rintro ⟨⟨hq, hlt⟩, hr, hrlt⟩
    have hlow : 0 ≤ x * o.tdiv x := Int.mul_nonneg (Int.le_of_lt hx) hq
    have hhigh : x * (o.tdiv x + 1) ≤ x * y := Int.mul_le_mul_of_nonneg_left hlt (Int.le_of_lt hx)
    rw [Int.mul_add, Int.mul_one] at hhigh
    omega
  · rintro ⟨hlow, hhigh⟩
    refine ⟨⟨Int.tdiv_nonneg hlow (Int.le_of_lt hx), ?_⟩, Int.tmod_nonneg x hlow,
      Int.tmod_lt_of_pos o hx⟩
    rw [Int.tdiv_eq_ediv_of_nonneg hlow]
    exact Int.ediv_lt_of_lt_mul hx (by rwa [Int.mul_comm])

/-- Division by a positive number does not lead away from zero. -/
theorem tdiv_bounds {o x n : Int} (hx : 0 < x) (hlow : -n ≤ o) (hhigh : o < n) :
    -n ≤ o.tdiv x ∧ o.tdiv x < n := by
  have habs := Int.natAbs_tdiv_le_natAbs o x
  by_cases hsign : 0 ≤ o
  · have hquotient := Int.tdiv_nonneg hsign (Int.le_of_lt hx)
    omega
  · have hneg : o.tdiv x = -((-o).tdiv x) := by rw [Int.neg_tdiv, Int.neg_neg]
    have hquotient : 0 ≤ (-o).tdiv x := Int.tdiv_nonneg (by omega) (Int.le_of_lt hx)
    omega

namespace Settings

/-! ### Two dimensions -/

/-- Settings that impose `y` inlines with `x` crosslines each, and no other bounds. -/
structure Imposed (s : Settings) (x y : Int32) : Prop where
  x_pos : 0 < x
  y_pos : 0 < y
  dimX : s.dimX = some x.toInt.toNat
  dimY : s.dimY = some y.toInt.toNat
  crosslines : s.crosslineBounds = some ⟨0, x - 1⟩
  inlines : s.inlineBounds = some ⟨0, y - 1⟩

theorem pos_of_lastBounding {axis : Axis} {calls : List Setting} {d : Dimension} {n : Int32}
    (h : lastBounding? axis calls = some (.dimension d n)) : 0 < n := by
  obtain ⟨s', hs⟩ := Except.isOk_iff.mp (accepted_of_lastBounding h)
  exact (apply_dimension_eq_ok_iff.mp hs).2.1

/-- The geometry that is left of calls of which the last to bound an axis are two dimensions. -/
theorem imposed_ofCalls {calls : List Setting} {x y : Int32}
    (hx : lastBounding? .crossline calls = some (.dimension .x x))
    (hy : lastBounding? .inline calls = some (.dimension .y y)) : (ofCalls calls).Imposed x y where
  x_pos := pos_of_lastBounding hx
  y_pos := pos_of_lastBounding hy
  dimX := dimension_ofCalls (d := .x) rfl hx
  dimY := dimension_ofCalls (d := .y) rfl hy
  crosslines := by
    have hbounds := bounds_ofCalls .crossline calls
    rwa [hx] at hbounds
  inlines := by
    have hbounds := bounds_ofCalls .inline calls
    rwa [hy] at hbounds

theorem toInt_pos {n : Int32} (h : 0 < n) : 0 < n.toInt := by
  rwa [Int32.lt_iff_toInt_lt, Int32.toInt_zero] at h

/-- The lines from zero to the last one. -/
theorem contains_iff {n line : Int32} (hn : 0 < n) :
    (Bounds.mk 0 (n - 1)).contains line = true ↔ 0 ≤ line.toInt ∧ line.toInt < n.toInt := by
  simp only [Bounds.contains, Bool.and_eq_true, decide_eq_true_eq, Int32.le_iff_toInt_le,
    toInt_sub_one hn, Int32.toInt_zero]
  omega

namespace Imposed

variable {s : Settings} {x y : Int32} (hs : s.Imposed x y)
include hs

theorem maxTraceCount_eq : (s.maxTraceCount : Int) = x.toInt * y.toInt := by
  have hx := toInt_pos hs.x_pos
  have hy := toInt_pos hs.y_pos
  rw [maxTraceCount, traceCount?, hs.dimX, hs.dimY]
  show ((x.toInt.toNat * y.toInt.toNat : Nat) : Int) = _
  rw [Int.natCast_mul, Int.toNat_of_nonneg (Int.le_of_lt hx),
    Int.toNat_of_nonneg (Int.le_of_lt hy)]

theorem inBounds_iff {inline crossline : Int32} :
    s.inBounds inline crossline = true ↔
      (0 ≤ inline.toInt ∧ inline.toInt < y.toInt) ∧
        0 ≤ crossline.toInt ∧ crossline.toInt < x.toInt := by
  rw [inBounds, hs.inlines, hs.crosslines, Bool.and_eq_true, Option.all_some, Option.all_some,
    contains_iff hs.x_pos, contains_iff hs.y_pos]

/-- **No line is cut off.**  Up to the limit of a scan, the lines of a header are quotient and
remainder of its ordinal, as they are. -/
theorem toInt_lines {order : ByteOrder} {k : Nat} {b : Bytes} {header : TraceHeader}
    (hk : k < s.maxTraceCount) (h : TraceHeader.ofBytes order s k b = .ok header) :
    let o := TraceHeader.ordinal s.order header.field k
    header.inline.toInt = o.tdiv x.toInt ∧ header.crossline.toInt = o.tmod x.toInt := by
  intro o
  have hx := toInt_pos hs.x_pos
  have hdim : s.dimX = some x.toInt.toNat := hs.dimX
  obtain ⟨hinline, hcrossline⟩ := TraceHeader.lines_of_dimX hdim h
  rw [Int.toNat_of_nonneg (Int.le_of_lt hx)] at hinline hcrossline
  have hquotient : -2 ^ 31 ≤ o.tdiv x.toInt ∧ o.tdiv x.toInt < 2 ^ 31 := by
    by_cases hposition : s.order = .position
    · -- a position below the limit is in the grid, so its inline is below `y`
      have ho : o = k := by
        show TraceHeader.ordinal s.order header.field k = k
        rw [hposition]
        rfl
      have hgrid : 0 ≤ o ∧ o < x.toInt * y.toInt := by
        rw [← hs.maxTraceCount_eq]
        omega
      have hbounds := ((tdiv_tmod_bounds_iff hx).mpr hgrid).1
      have hy := y.toInt_lt
      omega
    · obtain ⟨hlow, hhigh⟩ := TraceHeader.ordinal_bounds hposition header.field k
      rw [Int32.toInt_minValue] at hlow
      rw [Int32.toInt_maxValue] at hhigh
      exact tdiv_bounds hx hlow (by omega)
  have hremainder : -2 ^ 31 ≤ o.tmod x.toInt ∧ o.tmod x.toInt < 2 ^ 31 := by
    have hlow := Int.lt_tmod_of_pos o hx
    have hhigh := Int.tmod_lt_of_pos o hx
    have := x.toInt_lt
    omega
  rw [hinline, hcrossline]
  exact ⟨Int32.toInt_ofInt_of_le hquotient.1 hquotient.2,
    Int32.toInt_ofInt_of_le hremainder.1 hremainder.2⟩

variable {image : Image} {binary : BinaryHeader} {pos k : Nat} {header : TraceHeader}
  (hk : k < s.maxTraceCount) (hh : Scan.headerAt image binary s pos k = .ok header)
include hk hh

/-- **The traces of interest are those of the survey.** -/
theorem inBounds_iff_ordinal :
    s.inBounds header.inline header.crossline = true ↔
      0 ≤ TraceHeader.ordinal s.order header.field k ∧
        TraceHeader.ordinal s.order header.field k < x.toInt * y.toInt := by
  obtain ⟨hinline, hcrossline⟩ := hs.toInt_lines hk hh
  rw [hs.inBounds_iff, hinline, hcrossline]
  exact tdiv_tmod_bounds_iff (toInt_pos hs.x_pos)

theorem located_of_inBounds (hin : s.inBounds header.inline header.crossline = true) :
    header.Located x y (TraceHeader.ordinal s.order header.field k) := by
  obtain ⟨hinline, hcrossline⟩ := hs.toInt_lines hk hh
  obtain ⟨⟨hi, hiy⟩, hc, hcx⟩ := hs.inBounds_iff.mp hin
  refine ⟨?_, hc, hcx, hi, hiy⟩
  rw [hinline, hcrossline, Int.mul_comm]
  exact Int.mul_tdiv_add_tmod ..

end Imposed

end Settings

/-! ### Traces and their indices -/

/-- Where nothing is left out, each member is at its own index. -/
theorem getElem?_filterMap_range {α : Type} {f : Nat → Option α} {n : Nat}
    (h : ∀ k < n, ∃ a, f k = some a) :
    ((List.range n).filterMap f).length = n ∧
      ∀ k < n, ((List.range n).filterMap f)[k]? = f k := by
  induction n with
  | zero => exact ⟨rfl, fun k hk => absurd hk (Nat.not_lt_zero k)⟩
  | succ n ih =>
      obtain ⟨hlength, hget⟩ := ih fun k hk => h k (Nat.lt_succ_of_lt hk)
      obtain ⟨a, ha⟩ := h n (Nat.lt_succ_self n)
      rw [List.range_succ, List.filterMap_append, List.filterMap_cons_some ha, List.filterMap_nil]
      refine ⟨by rw [List.length_append, hlength, List.length_singleton], fun k hk => ?_⟩
      rcases Nat.lt_succ_iff_lt_or_eq.mp hk with hk | rfl
      · rw [List.getElem?_append_left (by omega), hget k hk]
      · rw [List.getElem?_append_right (by omega), hlength, Nat.sub_self, ha]
        rfl

namespace Scan

variable {binary : BinaryHeader} {s : Settings} {pos length : Nat} {header : TraceHeader}

/-- A trace is given exactly if its lines are of interest. -/
theorem exists_trace?_iff : (∃ t, trace? binary s pos header length = some t) ↔
    s.inBounds header.inline header.crossline = true := by
  unfold trace?
  split
  · next h =>
    split <;> exact ⟨fun _ => h, fun _ => ⟨_, rfl⟩⟩
  · next h => simp [h]

/-- A trace is on the lines of its record. -/
theorem lines_of_trace? {t : Trace} (h : trace? binary s pos header length = some t) :
    t.header.inline = header.inline ∧ t.header.crossline = header.crossline := by
  unfold trace? at h
  split at h
  · split at h <;> (cases h; exact ⟨rfl, rfl⟩)
  · cases h

section Records

variable {image : Image} {first k : Nat} {x y : Int32} (hs : s.Imposed x y)
  (hk : k < s.maxTraceCount)
  (hh : headerAt image binary s (recordStart image binary first k) k = .ok header)
include hs hk hh

/-- A record is given as a trace exactly if its ordinal is one of the survey. -/
theorem exists_recordTrace?_iff : (∃ t, recordTrace? image binary s first k = some t) ↔
    0 ≤ TraceHeader.ordinal s.order header.field k ∧
      TraceHeader.ordinal s.order header.field k < x.toInt * y.toInt := by
  rw [recordTrace?_eq hh, exists_trace?_iff, hs.inBounds_iff_ordinal hk hh]

/-- A trace is on the lines of the ordinal of its record. -/
theorem located_of_recordTrace? {t : Trace} (ht : recordTrace? image binary s first k = some t) :
    t.header.Located x y (TraceHeader.ordinal s.order header.field k) := by
  rw [recordTrace?_eq hh] at ht
  obtain ⟨hinline, hcrossline⟩ := lines_of_trace? ht
  obtain ⟨heq, hc, hcx, hi, hiy⟩ :=
    hs.located_of_inBounds hk hh (exists_trace?_iff.mp ⟨t, ht⟩)
  rw [← hinline] at heq hi hiy
  rw [← hcrossline] at heq hc hcx
  exact ⟨heq, hc, hcx, hi, hiy⟩

/-- No record is left out where the ordinal is the position. -/
theorem exists_located_of_position (hposition : s.order = .position) :
    ∃ t, recordTrace? image binary s first k = some t ∧ t.header.Located x y k := by
  have ho : TraceHeader.ordinal s.order header.field k = k := by
    rw [hposition]
    rfl
  have hgrid : 0 ≤ (k : Int) ∧ (k : Int) < x.toInt * y.toInt := by
    rw [← hs.maxTraceCount_eq]
    omega
  obtain ⟨t, ht⟩ := (exists_recordTrace?_iff hs hk hh).mpr (ho.symm ▸ hgrid)
  exact ⟨t, ht, ho ▸ located_of_recordTrace? hs hk hh ht⟩

end Records

/-- Where the ordinal is the position, the trace of each record is at its own index, and on the
lines of the index. -/
theorem traces_of_position {image : Image} {first : Nat} {found : Scan} {x y : Int32}
    (h : scan image first binary s = .ok found) (hs : s.Imposed x y)
    (hposition : s.order = .position) :
    found.traces.length = found.report.records ∧
      ∀ k < found.report.records, ∃ t, found.traces[k]? = some t ∧
        recordTrace? image binary s first k = some t ∧ t.header.Located x y k := by
  have hall : ∀ k < found.report.records, ∃ t,
      recordTrace? image binary s first k = some t ∧ t.header.Located x y k := fun k hk => by
    obtain ⟨hlimit, ⟨header, hh⟩, -⟩ := record_of_scan h hk
    exact exists_located_of_position hs hlimit hh hposition
  obtain ⟨hlength, hget⟩ := getElem?_filterMap_range fun k hk => (hall k hk).imp fun _ h => h.1
  rw [← traces_of_scan h] at hlength hget
  refine ⟨hlength, fun k hk => ?_⟩
  obtain ⟨t, ht, hl⟩ := hall k hk
  exact ⟨t, (hget k hk).trans ht, ht, hl⟩

end Scan

namespace File

/-- A trace is found by its lines if no other is on them. -/
theorem find?_eq_some {f : File} {k : Nat} {t : Trace} (ht : f.traces[k]? = some t)
    (hunique : ∀ j t', f.traces[j]? = some t' → t'.header.crossline = t.header.crossline →
      t'.header.inline = t.header.inline → j = k) :
    f.find? t.header.crossline t.header.inline = some k := by
  rw [find?]
  generalize hfound : f.traces.zipIdx.filter _ = found
  have hmem : (t, k) ∈ found := by
    rw [← hfound, List.mem_filter, List.mk_mem_zipIdx_iff_getElem?]
    exact ⟨ht, by simp⟩
  have hindex : ∀ p ∈ found, p.2 = k := by
    rintro ⟨t', j⟩ hp
    rw [← hfound, List.mem_filter, List.mk_mem_zipIdx_iff_getElem?] at hp
    simp only [Bool.and_eq_true, beq_iff_eq] at hp
    exact hunique j t' hp.1 hp.2.1 hp.2.2
  cases hlast : found.getLast? with
  | none =>
      rw [List.getLast?_eq_none_iff.mp hlast] at hmem
      exact absurd hmem List.not_mem_nil
  | some p => rw [Option.map_some, hindex p (List.mem_of_getLast? hlast)]

/-- In a file whose traces are in the order of the survey, each is found by its lines. -/
theorem find?_of_located {f : File} {x y : Int32}
    (h : ∀ (k : Nat) (t : Trace), f.traces[k]? = some t → t.header.Located x y k) {k : Nat}
    {t : Trace} (ht : f.traces[k]? = some t) :
    f.find? (Int32.ofInt (k % x.toInt)) (Int32.ofInt (k / x.toInt)) = some k := by
  have hlocated := h k t ht
  obtain ⟨hcrossline, hinline⟩ := hlocated.lines_eq
  rw [← hcrossline, ← hinline]
  refine find?_eq_some ht fun j t' ht' hc hi => ?_
  exact Int.ofNat_inj.mp (hlocated.ordinal_unique (h j t' ht') hc hi)

/-- Two by two traces are imposed.  The first call is replaced, and the last one is refused. -/
def twoByTwo : List Setting :=
  [.bounds .crossline 5 9, .dimension .y 2, .dimension .x 2, .dimension .x 0]

/-- A binary header of fixed length: there are no samples, and their format is 5. -/
def noSamples : Bytes :=
  List.replicate 24 0 ++ [0, 5] ++ List.replicate 276 0 ++ [0, 1] ++ List.replicate 96 0

/-- A file of three traces without samples. -/
def threeEmpty : Image :=
  (List.replicate 3200 0x43 ++ (noSamples ++ List.replicate 720 0)).toArray

/-- What is where in the file. -/
theorem slices_threeEmpty : threeEmpty.slice 3200 400 = noSamples ∧
    ∀ k < 3, threeEmpty.slice (3600 + 240 * k) 240 = List.replicate 240 0 := by
  have htext : (List.replicate 3200 (0x43 : UInt8)).length = 3200 := List.length_replicate
  have hbinary : noSamples.length = 400 := by decide +kernel
  constructor
  · have hbytes : threeEmpty.toList =
        List.replicate 3200 0x43 ++ (noSamples ++ List.replicate 720 0) := rfl
    have h := Image.slice_of_append hbytes
    rwa [htext, hbinary] at h
  · intro k hk
    rw [Image.slice_eq, threeEmpty, Bytes.slice_append_of_le (by omega),
      Bytes.slice_append_of_le (by omega), Bytes.slice, List.drop_replicate, List.take_replicate,
      Nat.min_eq_left (by omega)]

/-- The file can be opened, and all three records are read. -/
theorem ofImage_threeEmpty :
    ∃ f, ofImage (Settings.ofCalls twoByTwo) threeEmpty = .ok f ∧ f.report.records = 3 := by
  have hsize : threeEmpty.size = 4320 := by
    rw [threeEmpty, List.size_toArray, List.length_append, List.length_replicate]
    decide +kernel
  have hlabelled : TapeLabel.isPresent threeEmpty = false := by
    refine TapeLabel.isPresent_of_isC (c := 0x43) ?_ (by decide)
    rw [threeEmpty, List.getElem?_toArray, List.replicate_succ]
    rfl
  obtain ⟨hbinary, hheader⟩ := slices_threeEmpty
  have hmax : (Settings.ofCalls twoByTwo).maxTraceCount = 4 := rfl
  have hempty : ∀ k < 3, (TraceHeader.ofBytes .big (Settings.ofCalls twoByTwo) (k : Nat)
      (List.replicate 240 0)).isOk = true := by decide +kernel
  obtain ⟨binary, hread, hfixed, hsamples, hextended, horder⟩ : ∃ binary,
      BinaryHeader.ofBytes (Settings.ofCalls twoByTwo) noSamples = .ok binary ∧
      binary.fixedLength = true ∧ binary.samples = 0 ∧ binary.extendedHeaders = 0 ∧
      binary.order = .big := ⟨_, rfl, rfl, rfl, rfl, rfl⟩
  -- the bytes themselves are in the way from here on
  generalize threeEmpty = image at *
  generalize Settings.ofCalls twoByTwo = s at *
  have hend : ∀ pos, Scan.recordEnd image binary pos = pos + 240 := fun pos => by
    rw [Scan.recordEnd, Scan.recordLength_of_fixed hfixed, Scan.dataLength, hsamples]
    rfl
  have hh : ∀ k < 3, ∃ header,
      Scan.headerAt image binary s (3600 + 240 * k) k = .ok header := fun k hk => by
    rw [Scan.headerAt, horder, HeaderKind.length, hheader k hk]
    exact Except.isOk_iff.mp (hempty k hk)
  obtain ⟨first, hfirst⟩ := hh 0 (by decide)
  obtain ⟨second, hsecond⟩ := hh 1 (by decide)
  obtain ⟨third, hthird⟩ := hh 2 (by decide)
  have trail : Scan.Trail image binary s 3600 0 3 _ 4320 :=
    .record (by omega) hfirst (by rw [hend]; omega)
      (.record (by omega) (hend 3600 ▸ hsecond) (by rw [hend, hend]; omega)
        (.record (by omega) (by rw [hend, hend]; exact hthird) (by rw [hend, hend, hend]; omega)
          (by rw [hend, hend, hend]; exact .here 4320 3)))
  obtain ⟨found, hscan, hrecords⟩ : ∃ found,
      scan image 3600 binary s = .ok found ∧ found.report.records = 3 :=
    ⟨_, trail.scan_eq (.fixedEndOfFile hfixed (by rw [hend]; omega)), rfl⟩
  rw [← hbinary] at hread
  exact ⟨_, ofImage_eq_ok_iff.mpr ⟨by rw [hlabelled, hsize]; decide, none, binary, found,
    by rw [hlabelled]; rfl, by rw [hlabelled]; exact hread,
    by rw [hlabelled, hsize, hextended]; decide, by rw [hlabelled, hextended]; exact hscan, rfl⟩,
    hrecords⟩

end File

end SegY
