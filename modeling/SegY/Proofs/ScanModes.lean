import SegY.Proofs.Results
import SegY.Proofs.ScanTrail

/-!
# Scan — the two modes on uniform files

Where all records have the length that the binary header tells, it makes no difference whether the
headers of the traces are asked for it.  The two modes test the same things in opposite orders,
which shows only where the file ends at the trace limit.

* `Uniform`: a file of so many records of one length.
* `Uniform.exists_trail`: both modes walk over the same records, in lockstep.
* `Uniform.ends`: both modes stop at the same record (`Uniform.report`).
* `uniform_modes_agree`: what both modes find.
-/

namespace SegY

/-- The header with another word on whether all traces have the same length. -/
def BinaryHeader.withMode (h : BinaryHeader) (fixed : Bool) : BinaryHeader :=
  { h with fixedLength := fixed }

namespace Scan

variable {image : Image} {first n : Nat} {binary : BinaryHeader} {s : Settings}

/-- The length of a record, as the binary header tells it. -/
def blockLength (binary : BinaryHeader) : Nat :=
  HeaderKind.trace.length + dataLength binary binary.samples

/-- The position of record `k`, where all records have the length that the binary header tells. -/
def blockStart (binary : BinaryHeader) (first k : Nat) : Nat := first + k * blockLength binary

theorem blockStart_succ (binary : BinaryHeader) (first k : Nat) :
    blockStart binary first (k + 1) = blockStart binary first k + blockLength binary := by
  rw [blockStart, Nat.succ_mul, ← Nat.add_assoc, blockStart]

/-- From `first` on a file consists of `n` records of the length that the binary header tells.
Their headers can be read, and say the same number of samples as the binary header. -/
structure Uniform (image : Image) (first : Nat) (binary : BinaryHeader) (s : Settings) (n : Nat) :
    Prop where
  size : blockStart binary first n = image.size
  header : ∀ k < n, ∃ header, headerAt image binary s (blockStart binary first k) k = .ok header ∧
    header.samples = binary.samples

/-- The length of a record is the same in both modes if its header says what the binary header
does. -/
theorem recordLength_of_samples {pos k : Nat} {header : TraceHeader}
    (hh : headerAt image binary s pos k = .ok header) (hsamples : header.samples = binary.samples)
    (fixed : Bool) :
    recordLength image (binary.withMode fixed) pos = dataLength binary binary.samples := by
  cases fixed with
  | true => exact recordLength_of_fixed rfl image pos
  | false =>
      rw [← hsamples]
      exact recordLength_of_headerAt (s := s) (k := k) rfl hh

/-- After such a record comes the next. -/
theorem recordEnd_of_samples {k : Nat} {header : TraceHeader}
    (hh : headerAt image binary s (blockStart binary first k) k = .ok header)
    (hsamples : header.samples = binary.samples) (fixed : Bool) :
    recordEnd image (binary.withMode fixed) (blockStart binary first k) =
      blockStart binary first (k + 1) := by
  rw [recordEnd, recordLength_of_samples hh hsamples, blockStart_succ, blockLength, Nat.add_assoc]

namespace Uniform

/-- Why a mode stops.  A file that ends at the trace limit has both reasons: records of fixed length
are looked for in the file first, and others are counted first. -/
def reason (fixed : Bool) (n limit : Nat) : ScanStop :=
  if limit < n ∨ limit = n ∧ fixed = false then .traceLimit else .endOfFile

/-- What a mode reports of a file of `n` records. -/
def report (binary : BinaryHeader) (first n limit : Nat) (fixed : Bool) : ScanReport where
  reason := reason fixed n limit
  offset := blockStart binary first (min n limit)
  records := min n limit
  message := []

section

variable (h : Uniform image first binary s n)
include h

/-- Each record lies inside the file. -/
theorem blockStart_le {k : Nat} (hk : k ≤ n) : blockStart binary first k ≤ image.size := by
  rw [← h.size]
  exact Nat.add_le_add_left (Nat.mul_le_mul_right _ hk) _

/-- Up to the trace limit both modes walk over the same records, and take the same traces. -/
theorem exists_trail {k m : Nat} (hn : k + m ≤ n) (hmax : k + m ≤ s.maxTraceCount) :
    ∃ traces, ∀ fixed, Trail image (binary.withMode fixed) s (blockStart binary first k) k m
      traces (blockStart binary first (k + m)) := by
  induction m generalizing k with
  | zero => exact ⟨[], fun _ => .here _ _⟩
  | succ m ih =>
      obtain ⟨header, hh, hsamples⟩ := h.header k (by omega)
      obtain ⟨traces, htrail⟩ := ih (k := k + 1) (by omega) (by omega)
      have hk : k + 1 + m = k + (m + 1) := by omega
      refine ⟨(trace? binary s (blockStart binary first k) header
        (dataLength binary binary.samples)).toList ++ traces, fun fixed => ?_⟩
      have hend := recordEnd_of_samples hh hsamples fixed
      rw [← recordLength_of_samples hh hsamples fixed]
      refine .record (by omega) hh ?_ ?_
      · rw [hend]
        exact h.blockStart_le (by omega)
      · rw [hend, ← hk]
        exact htrail fixed

/-- Both modes stop after the last record, or at the trace limit if that comes first. -/
theorem ends (fixed : Bool) :
    Ends image (binary.withMode fixed) s (blockStart binary first (min n s.maxTraceCount))
      (min n s.maxTraceCount) (.ok (report binary first n s.maxTraceCount fixed)) := by
  have hheader : 0 < HeaderKind.trace.length := by decide
  rw [report]
  rcases Nat.lt_or_ge s.maxTraceCount n with hlt | hge
  · -- there is another record, but it is not looked at
    obtain ⟨header, hh, hsamples⟩ := h.header _ hlt
    have hreason : reason fixed n s.maxTraceCount = .traceLimit := if_pos (.inl hlt)
    have hfits : recordEnd image (binary.withMode fixed)
        (blockStart binary first s.maxTraceCount) ≤ image.size := by
      rw [recordEnd_of_samples hh hsamples]
      exact h.blockStart_le hlt
    rw [Nat.min_eq_right (Nat.le_of_lt hlt), hreason]
    cases fixed with
    | true => exact .fixedTraceLimit rfl hfits (Nat.le_refl _)
    | false => exact .traceLimit rfl (Nat.le_refl _)
  · have hstop := h.size
    rw [Nat.min_eq_left hge]
    cases fixed with
    | true =>
        have hreason : reason true n s.maxTraceCount = .endOfFile :=
          if_neg (by simp [Nat.not_lt.mpr hge])
        rw [hreason]
        refine .fixedEndOfFile rfl ?_
        rw [recordEnd]
        omega
    | false =>
        rcases Nat.lt_or_eq_of_le hge with hlt | heq
        · have hreason : reason false n s.maxTraceCount = .endOfFile :=
            if_neg (by omega)
          rw [hreason]
          exact .endOfFile rfl hlt (by omega)
        · have hreason : reason false n s.maxTraceCount = .traceLimit :=
            if_pos (.inr ⟨heq.symm, rfl⟩)
          rw [hreason]
          exact .traceLimit rfl (Nat.le_of_eq heq.symm)

/-- Each mode finds the same traces, and gives its own report. -/
theorem exists_scan : ∃ traces, ∀ fixed, ∃ found,
    scan image first (binary.withMode fixed) s = .ok found ∧ found.traces = traces ∧
      found.report = report binary first n s.maxTraceCount fixed := by
  obtain ⟨traces, htrail⟩ := h.exists_trail (k := 0) (m := min n s.maxTraceCount)
    (by omega) (by omega)
  rw [Nat.zero_add, blockStart, Nat.zero_mul, Nat.add_zero] at htrail
  exact ⟨traces, fun fixed => ⟨_, (htrail fixed).scan_eq (h.ends fixed), rfl, rfl⟩⟩

end

end Uniform

theorem reason_eq_iff (n limit : Nat) :
    Uniform.reason true n limit = Uniform.reason false n limit ↔ n ≠ limit := by
  simp only [Uniform.reason]
  grind

/-- **The two modes agree on uniform files.**  Let a file from some position on consist of `n`
records of the length that the binary header tells, whose headers can be read and say the same
number of samples.  Then a scan gives the same traces whether the binary header says that all
traces have the same length or not.  Either way it stops after the last record or at the trace
limit, whichever comes first, and has nothing to say; and it names the same reason unless there
are exactly as many records as it may look at. -/
theorem uniform_modes_agree {image : Image} {first n : Nat} {binary : BinaryHeader} {s : Settings}
    (h : Uniform image first binary s n) :
    ∃ fixed varying,
      scan image first { binary with fixedLength := true } s = .ok fixed ∧
      scan image first { binary with fixedLength := false } s = .ok varying ∧
      fixed.traces = varying.traces ∧
      fixed.report.offset = varying.report.offset ∧
      fixed.report.records = varying.report.records ∧
      fixed.report.records = min n s.maxTraceCount ∧
      fixed.report.message = [] ∧ varying.report.message = [] ∧
      (fixed.report.reason = varying.report.reason ↔ n ≠ s.maxTraceCount) := by
  obtain ⟨traces, hscan⟩ := h.exists_scan
  obtain ⟨fixed, hfixed, htraces, hreport⟩ := hscan true
  obtain ⟨varying, hvarying, htraces', hreport'⟩ := hscan false
  refine ⟨fixed, varying, hfixed, hvarying, htraces.trans htraces'.symm, ?_⟩
  rw [hreport, hreport']
  exact ⟨rfl, rfl, rfl, rfl, rfl, reason_eq_iff n s.maxTraceCount⟩

/-- Two records of one sample each. -/
def twoSingles : Image :=
  (List.replicate 115 (0 : UInt8) ++ [1] ++ List.replicate 240 (0 : UInt8) ++ [1] ++
    List.replicate 125 (0 : UInt8)).toArray

/-- The binary header of `twoSingles`. -/
def oneSample : BinaryHeader := { BinaryHeader.blank.withSamples 1 with format := .int8 }

/-- As many traces as `twoSingles` has. -/
def twoTraces : Settings := { dimX := some 2, dimY := some 1 }

/-- Both modes count the two records, and name different reasons. -/
theorem uniform_modes_agree_twoSingles :
    Uniform twoSingles 0 oneSample twoTraces 2 ∧
      ∃ fixed varying,
        scan twoSingles 0 { oneSample with fixedLength := true } twoTraces = .ok fixed ∧
        scan twoSingles 0 { oneSample with fixedLength := false } twoTraces = .ok varying ∧
        fixed.traces = varying.traces ∧ fixed.report.records = 2 ∧
        varying.report.records = 2 ∧ fixed.report.reason ≠ varying.report.reason := by
  have hheader : ∀ pos k, (headerAt twoSingles oneSample twoTraces pos k).isOk = true →
      (BinaryHeader.order oneSample).load (twoSingles.slice (pos + TraceField.samples.start) 2) =
        1 →
      ∃ header, headerAt twoSingles oneSample twoTraces pos k = .ok header ∧
        header.samples = oneSample.samples := fun pos k hok hsamples => by
    obtain ⟨header, hh⟩ := Except.isOk_iff.mp hok
    refine ⟨header, hh, UInt16.toNat_inj.mp ?_⟩
    rw [samples_of_headerAt hh, hsamples]
    rfl
  have huniform : Uniform twoSingles 0 oneSample twoTraces 2 := by
    refine ⟨by decide +kernel, fun k hk => ?_⟩
    obtain rfl | rfl : k = 0 ∨ k = 1 := by omega
    · exact hheader 0 0 (by decide +kernel) (by decide +kernel)
    · exact hheader 241 1 (by decide +kernel) (by decide +kernel)
  obtain ⟨fixed, varying, hfixed, hvarying, htraces, -, hsame, hrecords, -, -, hreason⟩ :=
    uniform_modes_agree huniform
  refine ⟨huniform, fixed, varying, hfixed, hvarying, htraces, hrecords, ?_, ?_⟩
  · rw [← hsame, hrecords]
    rfl
  · exact mt hreason.mp (not_not_intro rfl)

end Scan

end SegY
