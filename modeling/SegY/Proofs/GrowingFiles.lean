import SegY.Proofs.ScanTiling

/-!
# Scan — a file that grows

What a scan says of a record depends on the bytes of the record alone, but for one guess: whether a
header that cannot be read is followed by one that can.  So if bytes are added to a file, then the
records that were found in it are found again, and only a scan that came to the end of the file
finds more.

* `headerAt_grown`, `recordEnd_grown`: a record of the shorter file is one of the longer.
* `Trail.grown`: a scan of the longer file walks over the records of the shorter.
* `Ends.grown`: it stops where the other did, unless that was at the end of the file.
* `traces_grow`: a longer file has more traces, if it has other traces at all.
-/

namespace SegY.Scan

variable {a b : Image} {binary : BinaryHeader} {s : Settings}

/-! ### Records of the shorter file -/

/-- The bytes of the shorter file are those of the longer. -/
theorem slice_grown (hab : a.toList <+: b.toList) {start length : Nat}
    (hfits : start + length ≤ a.size) : b.slice start length = a.slice start length := by
  obtain ⟨more, hb⟩ := hab
  rw [Image.slice_eq, Image.slice_eq, ← hb, Bytes.slice_append_of_fits hfits]

theorem size_le_grown (hab : a.toList <+: b.toList) : a.size ≤ b.size := hab.length_le

section Records

variable (hab : a.toList <+: b.toList) {pos : Nat} (hfits : pos + HeaderKind.trace.length ≤ a.size)
include hab hfits

theorem headerAt_grown (k : Nat) : headerAt b binary s pos k = headerAt a binary s pos k := by
  rw [headerAt, slice_grown hab hfits, headerAt]

theorem recordLength_grown : recordLength b binary pos = recordLength a binary pos := by
  have hsamples : TraceField.samples.start + 2 ≤ HeaderKind.trace.length := by decide
  rw [recordLength, recordSamples, slice_grown hab (by omega), recordLength, recordSamples]

theorem recordEnd_grown (binary : BinaryHeader) : recordEnd b binary pos = recordEnd a binary pos := by
  rw [recordEnd, recordLength_grown hab hfits, recordEnd]

end Records

/-- A record ends after its header. -/
theorem header_le_of_recordEnd_le {image : Image} {pos : Nat}
    (h : recordEnd image binary pos ≤ image.size) : pos + HeaderKind.trace.length ≤ image.size :=
  Nat.le_trans (Nat.le_add_right ..) h

/-! ### The scan of the longer file -/

/-- A scan of the longer file walks over the records of the shorter. -/
theorem Trail.grown (hab : a.toList <+: b.toList) {pos k n stop : Nat} {traces : List Trace}
    (t : Trail a binary s pos k n traces stop) : Trail b binary s pos k n traces stop := by
  induction t with
  | here pos k => exact .here pos k
  | @record pos k n stop header traces hk hh fits _ ih =>
      have hheader := header_le_of_recordEnd_le fits
      have hend := recordEnd_grown hab hheader binary
      rw [← headerAt_grown hab hheader] at hh
      rw [← recordLength_grown hab hheader]
      refine .record hk hh ?_ (by rwa [hend])
      rw [hend]
      exact Nat.le_trans fits (size_le_grown hab)

/-- How the scan of a longer file reports what that of a shorter one did.  The end of the data may
turn out to be a damaged header. -/
structure Amended (report report' : ScanReport) : Prop where
  records : report'.records = report.records
  offset : report'.offset = report.offset
  message : report'.message = report.message
  reason : report'.reason = report.reason ∨
    report.reason = .suspectedEndOfData ∧ report'.reason = .suspectedCorruption

/-- The scan of the longer file stops where that of the shorter one did, unless this was at the end
of the file. -/
theorem Ends.grown (hab : a.toList <+: b.toList) {pos k : Nat} {report : ScanReport}
    (h : Ends a binary s pos k (.ok report)) (hreason : report.reason ≠ .endOfFile) :
    ∃ report', Ends b binary s pos k (.ok report') ∧ Amended report report' := by
  have hsize := size_le_grown hab
  cases h with
  | fixedEndOfFile => exact absurd rfl hreason
  | endOfFile => exact absurd rfl hreason
  | fixedTraceLimit mode fits limit =>
      have hend := recordEnd_grown hab (header_le_of_recordEnd_le fits) binary
      exact ⟨_, .fixedTraceLimit mode (by omega) limit, rfl, rfl, rfl, .inl rfl⟩
  | traceLimit mode limit => exact ⟨_, .traceLimit mode limit, rfl, rfl, rfl, .inl rfl⟩
  | headerFailure mode more fits unreadable =>
      rw [← headerAt_grown hab fits] at unreadable
      exact ⟨_, .headerFailure mode more (by omega) unreadable, rfl, rfl, rfl, .inl rfl⟩
  | suspectedCorruption mode fits more unreadable later nextFits nextReadable =>
      have hheader := header_le_of_recordEnd_le fits
      have hnext := header_le_of_recordEnd_le nextFits
      have hend := recordEnd_grown hab hheader binary
      rw [← headerAt_grown hab hheader] at unreadable
      rw [← headerAt_grown hab hnext, ← hend] at nextReadable
      refine ⟨_, .suspectedCorruption mode (by omega) more unreadable later ?_ nextReadable,
        rfl, rfl, rfl, .inl rfl⟩
      rw [hend, recordEnd_grown hab hnext]
      omega
  | suspectedEndOfData mode fits more unreadable later next =>
      have hheader := header_le_of_recordEnd_le fits
      have hend := recordEnd_grown hab hheader binary
      rw [← headerAt_grown hab hheader] at unreadable
      -- whether the next record can be read is only known of the longer file
      by_cases hnext : recordEnd b binary (recordEnd b binary pos) ≤ b.size ∧
          (headerAt b binary s (recordEnd b binary pos) (k + 1)).isOk = true
      · exact ⟨_, .suspectedCorruption mode (by omega) more unreadable later hnext.1 hnext.2,
          rfl, rfl, rfl, .inr ⟨rfl, rfl⟩⟩
      · exact ⟨_, .suspectedEndOfData mode (by omega) more unreadable later hnext,
          rfl, rfl, rfl, .inl rfl⟩

/-- Records come one after the other. -/
theorem le_recordStart (image : Image) (binary : BinaryHeader) (first k : Nat) :
    first ≤ recordStart image binary first k := by
  induction k with
  | zero => exact Nat.le_refl _
  | succ k ih =>
      rw [recordStart, recordEnd]
      omega

/-- What a scan finds begins with any trail that it can follow. -/
theorem Trail.extended {image : Image} {first n stop : Nat} {traces : List Trace} {found : Scan}
    (t : Trail image binary s first 0 n traces stop) (h : scan image first binary s = .ok found) :
    traces <+: found.traces ∧ n ≤ found.report.records ∧ stop ≤ found.report.offset := by
  -- the scan goes on from where the trail stops
  obtain ⟨m, rest, stop', r, t', hend⟩ := exists_trail image binary s stop n
  obtain ⟨⟨traces', report⟩, hw, rfl⟩ := Except.map_eq_ok_iff.mp h
  rw [t.walk_eq, Nat.zero_add, t'.walk_eq, walk_of_ends hend] at hw
  cases r with
  | error e => cases hw
  | ok report' =>
      cases hw
      obtain ⟨hoffset, hrecords⟩ := hend.report_eq
      rw [hoffset, hrecords, t'.stop_eq]
      exact ⟨⟨_, rfl⟩, Nat.le_add_right .., le_recordStart ..⟩

/-- **A growing file only gains traces.**  Let bytes be added to a file, and let both be scanned
from the same place with the same settings, and neither scan fail.  Then the traces of the shorter
file come first among those of the longer, which has no fewer records, and in which the scan does
not stop sooner.  If the scan of the shorter file stopped before its end, then that of the longer
finds the same and says the same, except that it may see that what looked like the end of the data
is a damaged header. -/
theorem traces_grow {a b : Image} (hab : a.toList <+: b.toList) {first : Nat}
    {binary : BinaryHeader} {s : Settings} {found found' : Scan}
    (ha : scan a first binary s = .ok found) (hb : scan b first binary s = .ok found') :
    found.traces <+: found'.traces ∧ found.report.records ≤ found'.report.records ∧
      found.report.offset ≤ found'.report.offset ∧
      (found.report.reason ≠ .endOfFile →
        found'.traces = found.traces ∧ Amended found.report found'.report) := by
  obtain ⟨t, hend⟩ := exists_trail_of_scan ha
  have t' := t.grown hab
  obtain ⟨htraces, hrecords, hoffset⟩ := t'.extended hb
  refine ⟨htraces, hrecords, hoffset, fun hreason => ?_⟩
  obtain ⟨report', hend', hamended⟩ := hend.grown hab hreason
  rw [t'.scan_eq hend'] at hb
  cases hb
  exact ⟨rfl, hamended⟩

/-- A record without samples, and one that has a coordinate out of range. -/
def damagedRecord : Bytes :=
  List.replicate 420 0 ++ [0x80, 0, 0, 0] ++ List.replicate 56 0

/-- The coordinates are not below zero. -/
def unsignedCoordinates : Settings := { coordinateFormat := .uint32 }

/-- With a third record behind it, what looked like the end of the data is a damaged header. -/
theorem traces_grow_damagedRecord :
    let binary := { BinaryHeader.blank with fixedLength := true }
    let longer := damagedRecord ++ List.replicate 240 0
    ∃ found found', scan damagedRecord.toArray 0 binary unsignedCoordinates = .ok found ∧
      scan longer.toArray 0 binary unsignedCoordinates = .ok found' ∧
      found.report.reason = .suspectedEndOfData ∧
      found'.report.reason = .suspectedCorruption ∧ found'.report.records = 1 ∧
      found'.traces = found.traces := by
  intro binary longer
  have hgrown : damagedRecord.toArray.toList <+: longer.toArray.toList := List.prefix_append ..
  have hsize : damagedRecord.toArray.size = 480 := by decide +kernel
  have hlonger : longer.toArray.size = 720 := by decide +kernel
  have hend : ∀ image pos, recordEnd image binary pos = pos + 240 := fun _ _ => rfl
  have hreason : ScanStop.suspectedEndOfData ≠ .endOfFile := by decide
  have hmax : 1 < unsignedCoordinates.maxTraceCount := by decide
  obtain ⟨header, hh⟩ : ∃ h,
      headerAt damagedRecord.toArray binary unsignedCoordinates 0 0 = .ok h :=
    Except.isOk_iff.mp (by rw [headerAt, Image.slice_eq]; decide +kernel)
  have hdamaged : (headerAt damagedRecord.toArray binary unsignedCoordinates 240 1).isOk = false := by
    rw [headerAt, Image.slice_eq]
    decide +kernel
  have hnext : (headerAt longer.toArray binary unsignedCoordinates 480 2).isOk = true := by
    rw [headerAt, Image.slice_eq]
    decide +kernel
  have t : Trail damagedRecord.toArray binary unsignedCoordinates 0 0 1 _ 240 :=
    .record (by omega) hh (by rw [hend]; omega) (.here 240 1)
  cases he : headerAt damagedRecord.toArray binary unsignedCoordinates 240 1 with
  | ok header =>
      rw [he] at hdamaged
      cases hdamaged
  | error e =>
      have ha := t.scan_eq (.suspectedEndOfData rfl (by rw [hend]; omega) hmax he (by decide)
        fun h => by rw [hend, hend] at h; omega)
      have he' : headerAt longer.toArray binary unsignedCoordinates 240 1 = .error e := by
        rw [headerAt_grown hgrown (by rw [hsize]; decide), he]
      have hb := (t.grown hgrown).scan_eq (.suspectedCorruption rfl (by rw [hend]; omega) hmax
        he' (by decide) (by rw [hend, hend]; omega) hnext)
      obtain ⟨-, -, -, hsame⟩ := traces_grow hgrown ha hb
      exact ⟨_, _, ha, hb, rfl, rfl, rfl, (hsame hreason).1⟩

end SegY.Scan
