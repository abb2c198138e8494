import SegY.Proofs.Results
import SegY.Proofs.ScanTrail

/-!
# Scan — the records tile the file

No record is lost, found twice or misplaced.  Those that a scan counts lie one after the other
from where it begins to where it says that it stopped, and the traces are the records of interest
among them.

* `recordTrace?`: the trace of a record, by the position of the record and its number alone.
* `record_of_scan`, `traces_of_scan`, `offset_of_scan`: where records and traces are.
* `scan_tiles`: what a scan gives, in these terms (`Tiled`).
-/

namespace SegY.Scan

variable {image : Image} {binary : BinaryHeader} {s : Settings}

/-- The trace of record `k`, if its header can be read and its lines are of interest.  A
z-dimension replaces the number of samples, and cuts off the samples after it. -/
def recordTrace? (image : Image) (binary : BinaryHeader) (s : Settings) (first k : Nat) :
    Option Trace :=
  let pos := recordStart image binary first k
  match headerAt image binary s pos k with
  | .ok header =>
    if s.inBounds header.inline header.crossline then
      some {
        header := (s.dimZ.map header.withSamples).getD header
        start := pos + HeaderKind.trace.length
        length := (s.dimZ.map fun z =>
          min (recordLength image binary pos) (binary.format.width * z)).getD
            (recordLength image binary pos) }
    else none
  | .error _ => none

/-- The records that a scan from `first` on counts, and the traces that it gives. -/
structure Tiled (image : Image) (first : Nat) (binary : BinaryHeader) (s : Settings)
    (found : Scan) :
    Prop where
  /-- Each record lies inside the file, from its own position to that of the next. -/
  inside : ∀ k < found.report.records, recordStart image binary first (k + 1) ≤ image.size
  /-- The header of each record can be read. -/
  readable : ∀ k < found.report.records,
    ∃ header, headerAt image binary s (recordStart image binary first k) k = .ok header
  /-- The scan stopped after the last record. -/
  offset : found.report.offset = recordStart image binary first found.report.records
  /-- The traces are those of the records of interest, in order. -/
  traces : found.traces =
    (List.range found.report.records).filterMap (recordTrace? image binary s first)

theorem recordTrace?_eq {first k : Nat} {header : TraceHeader}
    (h : headerAt image binary s (recordStart image binary first k) k = .ok header) :
    recordTrace? image binary s first k =
      trace? binary s (recordStart image binary first k) header
        (recordLength image binary (recordStart image binary first k)) := by
  simp only [recordTrace?, h, trace?]
  cases s.dimZ <;> rfl

/-- The traces of a trail are those of its records. -/
theorem Trail.traces_eq {pos k n stop : Nat} {traces : List Trace}
    (t : Trail image binary s pos k n traces stop) {first : Nat}
    (h : pos = recordStart image binary first k) :
    traces = (List.range' k n).filterMap (recordTrace? image binary s first) := by
  induction t with
  | here pos k => rfl
  | @record pos k n stop header traces hk hh fits _ ih =>
      -- the end of record `k` is where record `k + 1` is, so `ih` is about the rest as it stands
      subst h
      have htrace := recordTrace?_eq hh
      rw [List.range'_succ, List.filterMap_cons, htrace, ih rfl]
      cases trace? binary s (recordStart image binary first k) header
        (recordLength image binary (recordStart image binary first k)) <;> rfl

/-- A scan gives the traces of its trail. -/
theorem exists_trail_of_scan {first : Nat} {found : Scan}
    (h : scan image first binary s = .ok found) :
    Trail image binary s first 0 found.report.records found.traces found.report.offset ∧
      Ends image binary s found.report.offset found.report.records (.ok found.report) := by
  obtain ⟨n, traces, stop, r, t, hend⟩ := exists_trail image binary s first 0
  rw [Nat.zero_add] at hend
  rw [t.scan_eq hend] at h
  cases r with
  | error e => cases h
  | ok report =>
      cases h
      obtain ⟨hoffset, hrecords⟩ := hend.report_eq
      rw [hoffset, hrecords]
      exact ⟨t, hend⟩

/-- Each record that a scan counts can be read and lies inside the file. -/
theorem record_of_scan {first : Nat} {found : Scan} (h : scan image first binary s = .ok found)
    {k : Nat} (hk : k < found.report.records) :
    k < s.maxTraceCount ∧
      (∃ header, headerAt image binary s (recordStart image binary first k) k = .ok header) ∧
      recordEnd image binary (recordStart image binary first k) ≤ image.size := by
  obtain ⟨t, -⟩ := exists_trail_of_scan h
  have hrecord := t.record_of_lt hk
  rwa [Nat.zero_add] at hrecord

/-- The traces of a scan are those of the records that it counts. -/
theorem traces_of_scan {first : Nat} {found : Scan} (h : scan image first binary s = .ok found) :
    found.traces =
      (List.range found.report.records).filterMap (recordTrace? image binary s first) := by
  obtain ⟨t, -⟩ := exists_trail_of_scan h
  rw [List.range_eq_range']
  exact t.traces_eq rfl

/-- A scan stops where the record after the last one would be. -/
theorem offset_of_scan {first : Nat} {found : Scan} (h : scan image first binary s = .ok found) :
    found.report.offset = recordStart image binary first found.report.records :=
  (exists_trail_of_scan h).1.stop_eq

/-- **The records tile the file.**  Whatever bytes are scanned, from wherever, with whatever
settings: if the scan gives traces at all, then the records that it counts lie inside the file one
after the other, each has a header that can be read, the scan stopped after the last of them, and
the traces are exactly those of the records of interest, in order and where the records are. -/
theorem scan_tiles {image : Image} {first : Nat} {binary : BinaryHeader} {s : Settings}
    {found : Scan}
    (h : scan image first binary s = .ok found) : Tiled image first binary s found where
  inside := fun _ hk => (record_of_scan h hk).2.2
  readable := fun _ hk => (record_of_scan h hk).2.1
  offset := offset_of_scan h
  traces := traces_of_scan h

/-- Two records of two samples each; the second one is on inline 7. -/
def twoRecords : Image :=
  (List.replicate 430 (0 : UInt8) ++ [0, 0, 0, 7] ++ List.replicate 50 (0 : UInt8)).toArray

/-- The binary header of `twoRecords`. -/
def twoSamples : BinaryHeader :=
  { BinaryHeader.blank.withSamples 2 with fixedLength := true, format := .int8 }

/-- The first sample of each trace on the inlines 0 to 5. -/
def firstInlines : Settings := { dimZ := some 1, inlineBounds := some ⟨0, 5⟩ }

/-- Both records are counted, and the one on inline 0 is given, with its first sample. -/
theorem scan_tiles_twoRecords :
    ∃ found, scan twoRecords 0 twoSamples firstInlines = .ok found ∧
      Tiled twoRecords 0 twoSamples firstInlines found ∧ found.report.records = 2 ∧
      found.traces.map (fun t => (t.start, t.length)) = [(240, 1)] := by
  obtain ⟨a, ha⟩ : ∃ h, headerAt twoRecords twoSamples firstInlines 0 0 = .ok h :=
    Except.isOk_iff.mp (by rw [headerAt, Image.slice_eq]; decide +kernel)
  obtain ⟨b, hb⟩ : ∃ h, headerAt twoRecords twoSamples firstInlines 242 1 = .ok h :=
    Except.isOk_iff.mp (by rw [headerAt, Image.slice_eq]; decide +kernel)
  have t : Trail twoRecords twoSamples firstInlines 0 0 2 _ 484 :=
    .record (by decide) ha (by decide +kernel)
      (.record (by decide) hb (by decide +kernel) (.here 484 2))
  have hend : Ends twoRecords twoSamples firstInlines 484 2 (.ok ⟨.endOfFile, 484, 2, []⟩) :=
    .fixedEndOfFile rfl (by decide +kernel)
  obtain ⟨found, h, hrecords⟩ : ∃ found,
      scan twoRecords 0 twoSamples firstInlines = .ok found ∧ found.report.records = 2 :=
    ⟨_, t.scan_eq hend, rfl⟩
  refine ⟨found, h, scan_tiles h, hrecords, ?_⟩
  rw [(scan_tiles h).traces, hrecords]
  unfold recordTrace?
  simp only [headerAt, Image.slice_eq]
  decide +kernel

end SegY.Scan
