import SegY.Proofs.FieldCodec
import SegY.Proofs.Layout
import SegY.Scan

/-!
# Scan — the trail of a scan

Where the records of a file are is a matter of its bytes alone: record 0 is where the scan begins,
and each record is followed by the next (`recordStart`).  A scan walks along them from record to
record; `Trail` is the records it walks over, with the traces it takes from them, and `Ends` says
how it ends.

* `step_eq_record_iff`: a step finds a record exactly if the trace limit is not reached, the
  header can be read, and all of the record is there.
* `outcome?_step_eq_some_iff`: a step ends the scan exactly in the ways of `Ends`.
* `walk_eq_map`: with settings that differ only in what becomes of a trace, a scan finds the same.
* `exists_trail`, `Trail.walk_eq`: every scan follows a trail to a position where it ends, and
  gives the traces of the trail (`Trail.scan_eq`).
-/

namespace SegY

theorem TraceHeader.field_of_ofBytes {order : ByteOrder} {s : Settings} {position : Int} {b : Bytes}
    {header : TraceHeader} (h : ofBytes order s position b = .ok header) :
    header.field = readField order s b := by
  unfold ofBytes at h
  split at h
  · cases h
  · cases h; rfl

/-- What a scan gives that finds this at record `k`, unless it goes on. -/
def ScanStep.outcome? {image : Image} {pos : Nat} (k : Nat) :
    ScanStep image pos → Option (Except Error ScanReport)
  | .record _ _ _ => none
  | .stop reason message => some (.ok ⟨reason, pos, k, message⟩)
  | .fault e => some (.error e)

namespace Scan

variable {image : Image} {binary : BinaryHeader} {s : Settings}

/-! ### Where the records are -/

/-- The number of samples of the record at a position: that of the binary header in a file of
fixed length, and otherwise the one that the bytes of the record declare. -/
def recordSamples (image : Image) (binary : BinaryHeader) (pos : Nat) : Nat :=
  if binary.fixedLength then binary.samples.toNat
  else binary.order.load (image.slice (pos + TraceField.samples.start) 2)

/-- The length of the samples of the record at a position. -/
def recordLength (image : Image) (binary : BinaryHeader) (pos : Nat) : Nat :=
  binary.format.width * recordSamples image binary pos

/-- The end of the record at a position. -/
def recordEnd (image : Image) (binary : BinaryHeader) (pos : Nat) : Nat :=
  pos + HeaderKind.trace.length + recordLength image binary pos

/-- The position of record `k`, where record 0 is at `first`. -/
def recordStart (image : Image) (binary : BinaryHeader) (first : Nat) : Nat → Nat
  | 0 => first
  | k + 1 => recordEnd image binary (recordStart image binary first k)

theorem recordStart_succ' (first k : Nat) :
    recordStart image binary first (k + 1) =
      recordStart image binary (recordEnd image binary first) k := by
  induction k with
  | zero => rfl
  | succ k ih => rw [recordStart, ih, recordStart]

/-- Two bytes hold a 16-bit number. -/
theorem load_slice_lt (image : Image) (order : ByteOrder) (pos : Nat) :
    order.load (image.slice pos 2) < UInt16.size := by
  have hlen : (image.slice pos 2).length ≤ 2 := by
    rw [Image.slice_eq]
    exact Bytes.slice_length_le ..
  calc order.load (image.slice pos 2)
      < Bytes.capacity (image.slice pos 2).length := ByteOrder.load_lt _ _
    _ ≤ Bytes.capacity 2 := Bytes.capacity_le_capacity hlen

/-- A record has no more samples than 16 bits can count. -/
theorem recordSamples_le (image : Image) (binary : BinaryHeader) (pos : Nat) :
    recordSamples image binary pos ≤ maxSamples := by
  rw [recordSamples]
  split
  · exact Nat.le_of_lt_succ binary.samples.toNat_lt
  · exact Nat.le_of_lt_succ (load_slice_lt ..)

/-- A header that was read declares the number of samples that its bytes hold. -/
theorem samples_of_headerAt {pos k : Nat} {header : TraceHeader}
    (h : headerAt image binary s pos k = .ok header) :
    header.samples.toNat = binary.order.load (image.slice (pos + TraceField.samples.start) 2) := by
  have hslice : Bytes.slice (image.slice pos HeaderKind.trace.length) TraceField.samples.start 2 =
      image.slice (pos + TraceField.samples.start) 2 := by
    rw [Image.slice_eq, Image.slice_eq, Bytes.slice_slice (by decide)]
  have hs : header.samples = UInt16.ofNat (binary.order.load
      (image.slice (pos + TraceField.samples.start) 2)) := by
    rw [TraceHeader.samples, TraceHeader.field_of_ofBytes h, ← hslice]
    rfl
  rw [hs, UInt16.toNat_ofNat']
  exact Nat.mod_eq_of_lt (load_slice_lt ..)

theorem recordLength_of_fixed (h : binary.fixedLength = true) (image : Image) (pos : Nat) :
    recordLength image binary pos = dataLength binary binary.samples := by
  rw [recordLength, recordSamples, if_pos h, dataLength]

theorem recordLength_of_headerAt {pos k : Nat} {header : TraceHeader}
    (h : binary.fixedLength = false)
    (hh : headerAt image binary s pos k = .ok header) :
    recordLength image binary pos = dataLength binary header.samples := by
  rw [recordLength, recordSamples, if_neg (by simp [h]), dataLength, samples_of_headerAt hh]

/-! ### One step -/

/-- How a scan ends at record `k`, which is at `pos`.  The premises of a rule are the tests that
come before, in their order, and the one that ends the scan. -/
inductive Ends (image : Image) (binary : BinaryHeader) (s : Settings) (pos k : Nat) :
    Except Error ScanReport → Prop where
  | fixedEndOfFile (mode : binary.fixedLength = true)
      (short : image.size < recordEnd image binary pos) :
      Ends image binary s pos k (.ok ⟨.endOfFile, pos, k, []⟩)
  | fixedTraceLimit (mode : binary.fixedLength = true)
      (fits : recordEnd image binary pos ≤ image.size)
      (limit : s.maxTraceCount ≤ k) :
      Ends image binary s pos k (.ok ⟨.traceLimit, pos, k, []⟩)
  | firstHeader (mode : binary.fixedLength = true)
      (fits : recordEnd image binary pos ≤ image.size)
      (more : k < s.maxTraceCount) {e : ConversionError}
      (unreadable : headerAt image binary s pos k = .error e)
      (first : k = 0) :
      Ends image binary s pos k (.error (.conversion e))
  | suspectedCorruption (mode : binary.fixedLength = true)
      (fits : recordEnd image binary pos ≤ image.size)
      (more : k < s.maxTraceCount) {e : ConversionError}
      (unreadable : headerAt image binary s pos k = .error e)
      (later : k ≠ 0)
      (nextFits : recordEnd image binary (recordEnd image binary pos) ≤ image.size)
      (nextReadable : (headerAt image binary s (recordEnd image binary pos) (k + 1)).isOk = true) :
      Ends image binary s pos k (.ok ⟨.suspectedCorruption, pos, k, (Error.conversion e).text⟩)
  | suspectedEndOfData (mode : binary.fixedLength = true)
      (fits : recordEnd image binary pos ≤ image.size)
      (more : k < s.maxTraceCount) {e : ConversionError}
      (unreadable : headerAt image binary s pos k = .error e)
      (later : k ≠ 0)
      (next : ¬ (recordEnd image binary (recordEnd image binary pos) ≤ image.size ∧
        (headerAt image binary s (recordEnd image binary pos) (k + 1)).isOk = true)) :
      Ends image binary s pos k (.ok ⟨.suspectedEndOfData, pos, k, (Error.conversion e).text⟩)
  | traceLimit (mode : binary.fixedLength = false)
      (limit : s.maxTraceCount ≤ k) :
      Ends image binary s pos k (.ok ⟨.traceLimit, pos, k, []⟩)
  | endOfFile (mode : binary.fixedLength = false)
      (more : k < s.maxTraceCount)
      (short : image.size < pos + HeaderKind.trace.length) :
      Ends image binary s pos k (.ok ⟨.endOfFile, pos, k, []⟩)
  | headerFailure (mode : binary.fixedLength = false)
      (more : k < s.maxTraceCount)
      (fits : pos + HeaderKind.trace.length ≤ image.size) {e : ConversionError}
      (unreadable : headerAt image binary s pos k = .error e) :
      Ends image binary s pos k (.ok ⟨.headerFailure, pos, k, (Error.conversion e).text⟩)
  | incomplete (mode : binary.fixedLength = false)
      (more : k < s.maxTraceCount)
      (fits : pos + HeaderKind.trace.length ≤ image.size) {header : TraceHeader}
      (readable : headerAt image binary s pos k = .ok header)
      (short : image.size < recordEnd image binary pos) :
      Ends image binary s pos k (.error (.malformed (.incompleteTrace k pos
        (HeaderKind.trace.length + recordLength image binary pos) (image.size - pos))))

/-- A scan reports where it ends. -/
theorem Ends.report_eq {pos k : Nat} {report : ScanReport}
    (h : Ends image binary s pos k (.ok report)) : report.offset = pos ∧ report.records = k := by
  cases h <;> exact ⟨rfl, rfl⟩

/-- A record is found exactly where its header can be read and all of it is there. -/
theorem step_eq_record_iff {pos k : Nat} {header : TraceHeader} {length : Nat}
    {fits : pos + HeaderKind.trace.length + length ≤ image.size} :
    step image binary s pos k = .record header length fits ↔
      k < s.maxTraceCount ∧ headerAt image binary s pos k = .ok header ∧
        length = recordLength image binary pos := by
  -- both modes ask the same, but in different orders
  cases hmode : binary.fixedLength with
  | true =>
      have hl := recordLength_of_fixed hmode image pos
      simp only [step, hmode, if_true, fixedStep, ← hl]
      constructor
      · intro h
        split at h
        · split at h
          · cases h
          · split at h
            · cases h
              exact ⟨by omega, by assumption, rfl⟩
            · split at h
              · cases h
              · split at h <;> cases h
        · cases h
      · rintro ⟨hk, hh, rfl⟩
        rw [dif_pos fits, if_neg (Nat.not_le.mpr hk), hh]
  | false =>
      simp only [step, hmode, Bool.false_eq_true, if_false, variableStep]
      constructor
      · intro h
        split at h
        · cases h
        · split at h
          · cases h
          · split at h
            · next hh =>
              split at h
              · cases h
                exact ⟨by omega, hh, (recordLength_of_headerAt hmode hh).symm⟩
              · cases h
            · cases h
      · rintro ⟨hk, hh, rfl⟩
        have hl := recordLength_of_headerAt hmode hh
        rw [if_neg (Nat.not_le.mpr hk), if_neg (by omega), hh]
        simp only [← hl, dif_pos fits]

/-- A step ends the scan exactly in the ways of `Ends`. -/
theorem outcome?_step_eq_some_iff {pos k : Nat} {r : Except Error ScanReport} :
    (step image binary s pos k).outcome? k = some r ↔ Ends image binary s pos k r := by
  cases hmode : binary.fixedLength with
  | true =>
      have hl : ∀ pos, dataLength binary binary.samples = recordLength image binary pos :=
        fun pos => (recordLength_of_fixed hmode image pos).symm
      have hprobe : ∀ pos k, probe image binary s pos k = true ↔
          recordEnd image binary pos ≤ image.size ∧ (headerAt image binary s pos k).isOk = true :=
        fun pos k => by simp [probe, recordEnd, hl pos]
      -- from here on the rules and the branches are in the same words, and go one by one
      simp only [step, hmode, if_true, fixedStep, hl pos, ← recordEnd.eq_1]
      constructor
      · intro h
        split at h
        · next fits =>
          split at h
          · next limit => cases h; exact .fixedTraceLimit hmode fits limit
          · next more =>
            rw [Nat.not_le] at more
            split at h
            · cases h
            · next e he =>
              split at h
              · next first => cases h; exact .firstHeader hmode fits more he first
              · next later =>
                split at h
                · next hp =>
                  cases h
                  obtain ⟨nextFits, nextReadable⟩ := (hprobe _ _).mp hp
                  exact .suspectedCorruption hmode fits more he later nextFits nextReadable
                · next hp =>
                  cases h
                  exact .suspectedEndOfData hmode fits more he later (mt (hprobe _ _).mpr hp)
        · next short => cases h; exact .fixedEndOfFile hmode (Nat.not_le.mp short)
      · intro h
        cases h with
        | fixedEndOfFile mode short => rw [dif_neg (Nat.not_le.mpr short)]; rfl
        | fixedTraceLimit mode fits limit => rw [dif_pos fits, if_pos limit]; rfl
        | firstHeader mode fits more unreadable first =>
            rw [dif_pos fits, if_neg (Nat.not_le.mpr more), unreadable]
            simp only [if_pos first, ScanStep.outcome?]
        | suspectedCorruption mode fits more unreadable later nextFits nextReadable =>
            rw [dif_pos fits, if_neg (Nat.not_le.mpr more), unreadable]
            simp only [if_neg later, if_pos ((hprobe _ _).mpr ⟨nextFits, nextReadable⟩),
              ScanStep.outcome?]
        | suspectedEndOfData mode fits more unreadable later next =>
            rw [dif_pos fits, if_neg (Nat.not_le.mpr more), unreadable]
            simp only [if_neg later, if_neg (mt (hprobe _ _).mp next), ScanStep.outcome?]
        | _ mode => rw [hmode] at mode; cases mode
  | false =>
      simp only [step, hmode, Bool.false_eq_true, if_false, variableStep]
      constructor
      · intro h
        split at h
        · next limit => cases h; exact .traceLimit hmode limit
        · next more =>
          rw [Nat.not_le] at more
          split at h
          · next short => cases h; exact .endOfFile hmode more short
          · next fits =>
            rw [Nat.not_lt] at fits
            split at h
            · next header hh =>
              simp only [← recordLength_of_headerAt hmode hh] at h
              split at h
              · cases h
              · next short => cases h; exact .incomplete hmode more fits hh (Nat.not_le.mp short)
            · next e he => cases h; exact .headerFailure hmode more fits he
      · intro h
        cases h with
        | traceLimit mode limit => rw [if_pos limit]; rfl
        | endOfFile mode more short => rw [if_neg (Nat.not_le.mpr more), if_pos short]; rfl
        | headerFailure mode more fits unreadable =>
            rw [if_neg (Nat.not_le.mpr more), if_neg (Nat.not_lt.mpr fits), unreadable]
            rfl
        | incomplete mode more fits readable short =>
            rw [if_neg (Nat.not_le.mpr more), if_neg (Nat.not_lt.mpr fits), readable]
            simp only [← recordLength_of_headerAt hmode readable, ← recordEnd.eq_1]
            rw [dif_neg (Nat.not_le.mpr short)]
            rfl
        | _ mode => rw [hmode] at mode; cases mode

/-! ### From record to record -/

/-- `n` records from record `k` on, which is at `pos`, up to the position `stop`, with the traces
of interest among them. -/
inductive Trail (image : Image) (binary : BinaryHeader) (s : Settings) :
    (pos k n : Nat) → List Trace → (stop : Nat) → Prop where
  | here (pos k : Nat) : Trail image binary s pos k 0 [] pos
  | record {pos k n stop : Nat} {header : TraceHeader} {traces : List Trace}
      (hk : k < s.maxTraceCount)
      (hh : headerAt image binary s pos k = .ok header)
      (fits : recordEnd image binary pos ≤ image.size)
      (t : Trail image binary s (recordEnd image binary pos) (k + 1) n traces stop) :
      Trail image binary s pos k (n + 1)
        ((trace? binary s pos header (recordLength image binary pos)).toList ++ traces) stop

/-- Every scan follows a trail to a position where it ends. -/
theorem exists_trail (image : Image) (binary : BinaryHeader) (s : Settings) (pos k : Nat) :
    ∃ n traces stop r, Trail image binary s pos k n traces stop ∧
      Ends image binary s stop (k + n) r := by
  cases hstep : step image binary s pos k with
  | stop reason message =>
      exact ⟨0, [], pos, _, .here pos k,
        outcome?_step_eq_some_iff.mp (by rw [Nat.add_zero, hstep]; rfl)⟩
  | fault e =>
      exact ⟨0, [], pos, _, .here pos k,
        outcome?_step_eq_some_iff.mp (by rw [Nat.add_zero, hstep]; rfl)⟩
  | record header length fits =>
      obtain ⟨hk, hh, rfl⟩ := step_eq_record_iff.mp hstep
      obtain ⟨n, traces, stop, r, t, hend⟩ :=
        exists_trail image binary s (recordEnd image binary pos) (k + 1)
      refine ⟨n + 1, _, stop, r, .record hk hh fits t, ?_⟩
      rwa [← Nat.add_assoc, Nat.add_right_comm]
termination_by image.size - pos
decreasing_by
  have hlen : HeaderKind.trace.length = 240 := rfl
  simp only [recordEnd]
  omega

/-- With settings with which the same is found at every position, and traces are taken from records
as `g` tells, a scan gives its traces as `g` tells. -/
theorem walk_eq_map {s' : Settings} {g : Trace → Trace}
    (hstep : ∀ pos k, step image binary s' pos k = step image binary s pos k)
    (htrace : ∀ pos header length,
      trace? binary s' pos header length = (trace? binary s pos header length).map g)
    (pos k : Nat) :
    walk image binary s' pos k =
      (walk image binary s pos k).map fun found => (found.1.map g, found.2) := by
  induction pos, k using walk.induct image binary s with
  | case1 pos k reason message hstop =>
      rw [walk, walk, hstep, hstop]
      rfl
  | case2 pos k e hfault =>
      rw [walk, walk, hstep, hfault]
      rfl
  | case3 pos k header length fits hrecord traces report hrest ih =>
      rw [walk, walk, hstep, hrecord]
      simp only [ih, hrest, htrace]
      simp [Except.map, Option.toList_map]
  | case4 pos k header length fits hrecord e hrest ih =>
      rw [walk, walk, hstep, hrecord]
      simp only [ih, hrest]
      rfl

/-- A scan that ends where it begins gives no traces. -/
theorem walk_of_ends {pos k : Nat} {r : Except Error ScanReport} (h : Ends image binary s pos k r) :
    walk image binary s pos k = r.map fun report => ([], report) := by
  have ho := outcome?_step_eq_some_iff.mpr h
  rw [walk]
  cases hstep : step image binary s pos k with
  | stop reason message => rw [hstep] at ho; cases ho; rfl
  | fault e => rw [hstep] at ho; cases ho; rfl
  | record header length fits => rw [hstep] at ho; cases ho

namespace Trail

variable {pos k n stop : Nat} {traces : List Trace}

/-- A scan gives the traces of its trail before those of what follows. -/
theorem walk_eq (t : Trail image binary s pos k n traces stop) :
    walk image binary s pos k =
      (walk image binary s stop (k + n)).map fun found => (traces ++ found.1, found.2) := by
  induction t with
  | here pos k => cases walk image binary s pos k <;> rfl
  | @record pos k n stop header traces hk hh fits _ ih =>
      have hstep :
          step image binary s pos k = .record header (recordLength image binary pos) fits :=
        step_eq_record_iff.mpr ⟨hk, hh, rfl⟩
      have hn : k + (n + 1) = k + 1 + n := by omega
      rw [walk, hstep, hn]
      simp only [← recordEnd.eq_1, ih]
      cases walk image binary s stop (k + 1 + n) <;> simp [Except.map]

/-- A scan that ends after a trail finds the traces of the trail. -/
theorem scan_eq {first : Nat} {r : Except Error ScanReport}
    (t : Trail image binary s first 0 n traces stop) (hend : Ends image binary s stop n r) :
    scan image first binary s = r.map fun report => ⟨traces, report, cut binary s⟩ := by
  rw [scan, t.walk_eq, Nat.zero_add, walk_of_ends hend]
  cases r <;> simp [Except.map]

/-- The position after `n` records. -/
theorem stop_eq (t : Trail image binary s pos k n traces stop) :
    stop = recordStart image binary pos n := by
  induction t with
  | here pos k => rfl
  | record _ _ _ _ ih => rw [ih, recordStart_succ']

/-- Each record of a trail can be read and lies inside the file. -/
theorem record_of_lt (t : Trail image binary s pos k n traces stop) {j : Nat} (hj : j < n) :
    k + j < s.maxTraceCount ∧
      (∃ header, headerAt image binary s (recordStart image binary pos j) (k + j) = .ok header) ∧
      recordEnd image binary (recordStart image binary pos j) ≤ image.size := by
  induction t generalizing j with
  | here pos k => omega
  | @record pos k n stop header traces hk hh fits _ ih =>
      cases j with
      | zero => exact ⟨hk, ⟨header, hh⟩, fits⟩
      | succ j =>
          rw [recordStart_succ', ← Nat.add_assoc, Nat.add_right_comm]
          exact ih (Nat.lt_of_succ_lt_succ hj)

end Trail

end Scan

end SegY
