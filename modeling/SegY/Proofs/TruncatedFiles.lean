import SegY.Proofs.StridedReading
import SegY.Proofs.TraceCodec

/-!
# Opening a file — with a z-dimension

A z-dimension cuts the samples of every trace off at a number of them.  It has no say in where
traces are: the scan takes the length of a record from the file, and cuts only what it gives.  So
the file that is opened with a z-dimension is the one that is opened without, cut short.

* `Scan.scan_cutTo`: a scan walks over the same records, and gives the same traces, cut short.
* `File.ofImage_cutTo`: so does opening a file, and it fails in the same way.
* `File.read_cutTo`: the samples that are read of a trace are the first ones of those that are read
  of the whole trace.
* `File.dimension_truncates`: a z-dimension does this, and nothing else.
-/

namespace SegY

/-! ### What is cut -/

/-- The trace with no more than its first `z` samples, each `width` bytes wide. -/
def Trace.cutTo (width z : Nat) (t : Trace) : Trace :=
  { t with header := t.header.withSamples z, length := min t.length (width * z) }

/-- The header of a file whose traces are cut to `z` samples. -/
def BinaryHeader.cutTo (h : BinaryHeader) (z : Nat) : BinaryHeader :=
  { h.withSamples z with fixedLength := true }

/-- `t'` is the trace `t` with no more than its first `z` samples, each `width` bytes wide.  It
starts at the same place, and its header differs in the number of samples alone. -/
structure Trace.Truncated (width z : Nat) (t t' : Trace) : Prop where
  start : t'.start = t.start
  length : t'.length = min t.length (z * width)
  samples : t'.header.samples.toNat = z
  field : ∀ g, g ≠ .samples → t'.header.field g = t.header.field g
  same : t'.header = { t.header with field := t'.header.field }

/-- `h'` is the header `h` of a file whose traces were cut to `z` samples.  They have all the same
length from then on, and nothing else is different. -/
structure BinaryHeader.Truncated (z : Nat) (h h' : BinaryHeader) : Prop where
  samples : h'.samples.toNat = z
  field : ∀ g, g ≠ .samples → h'.field g = h.field g
  same : h' = { h with field := h'.field, fixedLength := true }

theorem Trace.truncated_cutTo (t : Trace) (width : Nat) {z : Nat} (hmax : z ≤ maxSamples) :
    Trace.Truncated width z t (t.cutTo width z) where
  start := rfl
  length := by rw [Nat.mul_comm]; rfl
  samples := (congrArg UInt16.toNat (t.header.set_field_self .samples (UInt16.ofNat z))).trans
    (UInt16.toNat_ofNat_of_lt' (Nat.lt_succ_of_le hmax))
  field g hg := TraceHeader.set_field_of_ne _ (Ne.symm hg) _
  same := rfl

theorem BinaryHeader.truncated_cutTo (h : BinaryHeader) {z : Nat} (hmax : z ≤ maxSamples) :
    BinaryHeader.Truncated z h (h.cutTo z) where
  samples := (congrArg UInt16.toNat (h.set_field_self .samples (UInt16.ofNat z))).trans
    (UInt16.toNat_ofNat_of_lt' (Nat.lt_succ_of_le hmax))
  field _ hg := set_field_of_ne h (Ne.symm hg) _
  same := rfl

/-- The settings with a z-dimension. -/
def Settings.cutTo (s : Settings) (z : Nat) : Settings := { s with dimZ := some z }

theorem Settings.apply_dimension_z (s : Settings) {z : Nat} (hpos : 1 ≤ z) (hmax : z ≤ maxSamples) :
    s.apply (.dimension .z (Int32.ofNat z)) = .ok (s.cutTo z) := by
  have hlt : z < 2147483648 := Nat.lt_of_le_of_lt hmax (by decide)
  have hz : (Int32.ofNat z).toInt = z := Int32.toInt_ofNat_of_lt hlt
  refine apply_dimension_eq_ok_iff.mpr ⟨fun _ => ?_, ?_, ?_⟩
  · rw [hz]
    exact Int.ofNat_le.mpr hmax
  · rw [Int32.lt_iff_toInt_lt, hz, Int32.toInt_zero]
    omega
  · simp only [withDimension, hz, Int.toNat_natCast, cutTo]

/-! ### The scan -/

namespace Scan

variable {image : Image} {binary : BinaryHeader} {s : Settings} {z : Nat}

section Uncut

variable (hnone : s.dimZ = none)
include hnone

theorem trace?_cutTo (pos : Nat) (header : TraceHeader) (length : Nat) :
    trace? binary (s.cutTo z) pos header length =
      (trace? binary s pos header length).map (Trace.cutTo binary.format.width z) := by
  have hbounds : (s.cutTo z).inBounds = s.inBounds := rfl
  simp only [trace?, hbounds, hnone]
  split <;> rfl

/-- A scan with a z-dimension walks over the same records, and what it finds is what it finds
without, cut short. -/
theorem scan_cutTo (first : Nat) :
    scan image first binary (s.cutTo z) = (scan image first binary s).map fun found =>
      ⟨found.traces.map (Trace.cutTo binary.format.width z), found.report, binary.cutTo z⟩ := by
  have hstep : ∀ pos k, step image binary (s.cutTo z) pos k = step image binary s pos k :=
    fun _ _ => rfl
  rw [scan, scan, walk_eq_map hstep (trace?_cutTo hnone)]
  cases walk image binary s first 0 <;> rfl

end Uncut

/-- A scan that keeps the binary header in a place of the caller's, and describes the traces there
once it found them. -/
def inPlace (image : Image) (first : Nat) (s : Settings) :
    ExceptT Error (StateM BinaryHeader) (List Trace × ScanReport) := do
  let binary ← get
  let found ← ExceptT.mk (pure (walk image binary s first 0))
  set (cut binary s)
  return found

/-- A scan in place is a scan, and one that fails leaves the binary header as it was. -/
theorem inPlace_eq (image : Image) (first : Nat) (s : Settings) (binary : BinaryHeader) :
    (inPlace image first s).run.run binary =
      ((scan image first binary s).map fun found => (found.traces, found.report),
        ((scan image first binary s).map Scan.binary).toOption.getD binary) := by
  have hrun : (inPlace image first s).run.run binary = StateT.run (ExceptT.bindCont
      (fun found => do set (cut binary s); return found)
      (walk image binary s first 0) : StateM BinaryHeader _) binary := rfl
  rw [hrun, scan]
  cases walk image binary s first 0 <;> rfl

end Scan

namespace File

/-! ### The file -/

/-- The file with its traces cut to `z` samples. -/
def cutTo (f : File) (z : Nat) : File :=
  { f with
    settings := f.settings.cutTo z
    binary := f.binary.cutTo z
    traces := f.traces.map (Trace.cutTo f.width z) }

/-- What is opened with a z-dimension is what is opened without, cut short. -/
theorem ofImage_cutTo {s : Settings} (hnone : s.dimZ = none) (z : Nat) (image : Image) :
    ofImage (s.cutTo z) image = (ofImage s image).map fun f => f.cutTo z := by
  -- what comes before the scan does not ask for a z-dimension, so it fails alike
  refine ofImage_eq_map (fun _ => rfl) fun labelled label binary => ?_
  simp only [withTraces, Scan.scan_cutTo hnone]
  split
  · rfl
  cases hscan : scan image _ binary s with
  | error e => rfl
  | ok found =>
    -- the width of what is cut is that of the header that was read, which has not changed
    obtain ⟨hcut, -, -⟩ := Scan.binary_of_scan hscan
    have hcut : found.binary = binary := by rw [hcut, Scan.cut, hnone]
    simp only [Except.map, cutTo, width, hcut]

/-- The samples of the trace of an index as floats. -/
def readTrace (f : File) (i : Nat) : Except Error (List Float32Word) := do
  let t ← (f.trace i).mapError .index
  f.read t

section Samples

variable {f : File} {t : Trace} {z : Nat}

theorem samples_cutTo : (f.cutTo z).samples (t.cutTo f.width z) = min (f.samples t) z := by
  show min t.length (f.width * z) / f.width = min (t.length / f.width) z
  rcases Nat.le_total t.length (f.width * z) with h | h
  · rw [Nat.min_eq_left h, Nat.min_eq_left (Nat.div_le_of_le_mul h)]
  · have hz : z ≤ t.length / f.width := by
      rwa [Nat.le_div_iff_mul_le f.width_pos, Nat.mul_comm]
    rw [Nat.min_eq_right h, Nat.mul_div_cancel_left _ f.width_pos, Nat.min_eq_right hz]

theorem countEvery_le (step : Nat) {m n : Nat} (h : m ≤ n) :
    countEvery step m ≤ countEvery step n :=
  Nat.div_le_div_right (by omega)

/-- A step selects the first ones of the samples that it selects of the whole trace. -/
theorem everyNth_cutTo (step : Nat) :
    (f.cutTo z).everyNth (t.cutTo f.width z) step =
      (f.everyNth t step).take (countEvery step (min (f.samples t) z)) := by
  have hle := countEvery_le step (Nat.min_le_left (f.samples t) z)
  rw [everyNth, samples_cutTo, everyNth, ← List.map_take, List.take_range, Nat.min_eq_left hle]
  rfl

variable (hend : t.start + t.length ≤ f.image.size) (hwhole : f.width ∣ t.length)
  (hstep : 0 < f.settings.step)
include hend hwhole hstep

/-- What is read of a trace that was cut short are the first samples that are read of the whole
trace. -/
theorem read_cutTo :
    (f.cutTo z).read (t.cutTo f.width z) =
      (f.read t).map (List.take (countEvery f.settings.step (min (f.samples t) z))) := by
  have hend' : (t.cutTo f.width z).start + (t.cutTo f.width z).length ≤ (f.cutTo z).image.size :=
    Nat.le_trans (Nat.add_le_add_left (Nat.min_le_left ..) _) hend
  have hwhole' : (f.cutTo z).width ∣ (t.cutTo f.width z).length := by
    show f.width ∣ min t.length (f.width * z)
    rcases Nat.le_total t.length (f.width * z) with h | h
    · rwa [Nat.min_eq_left h]
    · rw [Nat.min_eq_right h]
      exact Nat.dvd_mul_right ..
  rw [read_eq_map_everyNth hend' hwhole' hstep, read_eq_map_everyNth hend hwhole hstep]
  have hformat : (f.cutTo z).binary.format = f.binary.format := rfl
  rw [hformat]
  cases f.binary.format.decoder with
  | error e => rfl
  | ok decode =>
    show Except.ok (List.map _ ((f.cutTo z).everyNth (t.cutTo f.width z) f.settings.step)) = _
    rw [everyNth_cutTo, List.map_take]
    rfl

/-- As many samples are read as the step selects. -/
theorem length_of_read {values : List Float32Word} (h : f.read t = .ok values) :
    values.length = countEvery f.settings.step (f.samples t) := by
  rw [read_eq_map_everyNth hend hwhole hstep] at h
  obtain ⟨decode, -, rfl⟩ := Except.map_eq_ok_iff.mp h
  rw [List.length_map, length_everyNth]

end Samples

/-- `f'` is the file `f` with its traces cut to `z` samples.  The report of the scan, the label and
the text headers are the same, and of each trace the first of the samples are read. -/
structure Truncated (z : Nat) (f f' : File) : Prop where
  same : f' = { f with settings := f'.settings, binary := f'.binary, traces := f'.traces }
  binary : f.binary.Truncated z f'.binary
  traces : List.Forall₂ (Trace.Truncated f.width z) f.traces f'.traces
  /-- What cannot be read of the one file cannot be read of the other. -/
  error : ∀ i e, f'.readTrace i = .error e ↔ f.readTrace i = .error e
  /-- As many samples are read as a step selects of those that are left. -/
  read : ∀ i t values, f.trace i = .ok t → f.readTrace i = .ok values →
    let count := (min (f.samples t) z + f.settings.step - 1) / f.settings.step
    count ≤ values.length ∧ f'.readTrace i = .ok (values.take count)

theorem trace_cutTo (f : File) (z i : Nat) :
    ((f.cutTo z).trace i) = (f.trace i).map (Trace.cutTo f.width z) := by
  have hget : (f.cutTo z).traces[i]? = (f.traces[i]?).map (Trace.cutTo f.width z) :=
    List.getElem?_map ..
  have hsize : (f.cutTo z).size = f.size := List.length_map ..
  simp only [trace, hget, hsize]
  cases f.traces[i]? <;> rfl

theorem readTrace_of_trace {f : File} {i : Nat} {t : Trace} (h : f.trace i = .ok t) :
    f.readTrace i = f.read t := by
  rw [readTrace, h]
  rfl

/-- Where a trace can be read, the first of its samples are read of the trace that was cut. -/
theorem readTrace_cutTo {f : File} (hsound : f.Sound) (hstep : 0 < f.settings.step) (z : Nat)
    {i : Nat} {t : Trace} (h : f.trace i = .ok t) :
    (f.cutTo z).readTrace i =
      (f.readTrace i).map (List.take (countEvery f.settings.step (min (f.samples t) z))) := by
  obtain ⟨hend, hwhole⟩ := hsound t (mem_of_trace h)
  have h' : (f.cutTo z).trace i = .ok (t.cutTo f.width z) := by
    rw [trace_cutTo, h]
    rfl
  rw [readTrace_of_trace h', readTrace_of_trace h, read_cutTo hend hwhole hstep]

/-- Cutting short is what it is said to be. -/
theorem truncated_cutTo {f : File} (hsound : f.Sound) (hstep : 0 < f.settings.step) {z : Nat}
    (hmax : z ≤ maxSamples) : Truncated z f (f.cutTo z) where
  same := rfl
  binary := f.binary.truncated_cutTo hmax
  traces := by
    show List.Forall₂ _ f.traces (f.traces.map _)
    exact List.forall₂_map_right_iff.mpr
      (List.forall₂_same.mpr fun t _ => t.truncated_cutTo f.width hmax)
  error i e := by
    cases h : f.trace i with
    | error e' =>
      rw [readTrace, readTrace, trace_cutTo, h]
      exact Iff.rfl
    | ok t => rw [readTrace_cutTo hsound hstep z h, Except.map_eq_error_iff]
  read i t values h hvalues := by
    refine ⟨?_, ?_⟩
    · obtain ⟨hend, hwhole⟩ := hsound t (mem_of_trace h)
      rw [readTrace_of_trace h] at hvalues
      rw [length_of_read hend hwhole hstep hvalues]
      exact countEvery_le _ (Nat.min_le_left ..)
    · rw [readTrace_cutTo hsound hstep z h, hvalues]
      rfl

/-- **A z-dimension only cuts traces short.**  Take settings without one, and any bytes.  With a
z-dimension, which can be anything from 1 to 65535, the same files can be opened, and those that
cannot fail in the same way.  A file that is opened has the same report and as many traces, at the
same places; no trace has more samples than the dimension, and its samples are the first ones of
those that are read without it.

The binary header that a scan is handed describes the traces only once the scan has found them; if
it fails, the header is as it was. -/
theorem dimension_truncates {s : Settings} (hs : s.Reachable) (hnone : s.dimZ = none) {z : Nat}
    (hpos : 1 ≤ z) (hmax : z ≤ 65535) (image : Image) :
    ∃ s', s.apply (.dimension .z (Int32.ofNat z)) = .ok s' ∧
      (∀ e, ofImage s' image = .error e ↔ ofImage s image = .error e) ∧
      (∀ f, ofImage s image = .ok f → ∃ f', ofImage s' image = .ok f' ∧ Truncated z f f') ∧
      ∀ first binary given,
        let outcome := (Scan.inPlace image first given).run.run binary
        outcome.1 =
          (scan image first binary given).map (fun found => (found.traces, found.report)) ∧
        (∀ found, scan image first binary given = .ok found → outcome.2 = found.binary) ∧
        ∀ e, scan image first binary given = .error e → outcome.2 = binary := by
  refine ⟨s.cutTo z, s.apply_dimension_z hpos hmax, fun e => ?_, fun f hf => ?_,
    fun first binary given => ?_⟩
  · rw [ofImage_cutTo hnone, Except.map_eq_error_iff]
  · have hstep : 0 < f.settings.step := by
      rw [(settings_of_ofImage hf).1]
      exact hs.valid.step_pos
    refine ⟨f.cutTo z, ?_, truncated_cutTo (sound_of_ofImage hf) hstep hmax⟩
    rw [ofImage_cutTo hnone, hf]
    rfl
  · rw [Scan.inPlace_eq]
    refine ⟨rfl, fun found h => ?_, fun e h => ?_⟩
    · rw [h]
      rfl
    · rw [h]
      rfl

/-- The trace of the samples 7, 8 and 9 is cut to the first two. -/
theorem dimension_truncates_sevenEightNine :
    ∃ s', Settings.apply {} (.dimension .z 2) = .ok s' ∧
      ∃ f f' t t', ofImage {} Reader.sevenEightNine.toArray = .ok f ∧
        ofImage s' Reader.sevenEightNine.toArray = .ok f' ∧ f'.report = f.report ∧
        f.trace 0 = .ok t ∧ t.length = 6 ∧ f'.trace 0 = .ok t' ∧ t'.length = 4 ∧
        t'.header.samples.toNat = 2 ∧ f'.binary.fixedLength = true ∧
        ∀ values, f.readTrace 0 = .ok values → f'.readTrace 0 = .ok (values.take 2) := by
  obtain ⟨f, t, hopen, hstep, hwidth, ht, -, hlength, -⟩ := Reader.ofBytes_sevenEightNine 1
  obtain ⟨f₀, hf, hf₀⟩ := Except.map_eq_ok_iff.mp hopen
  cases hf₀
  obtain ⟨s', hs', -, hopens, -⟩ := dimension_truncates .default rfl (z := 2) (by decide)
    (by decide) Reader.sevenEightNine.toArray
  obtain ⟨f', hf', h⟩ := hopens f hf
  obtain ⟨t', ht', htruncated⟩ : ∃ t', f'.trace 0 = .ok t' ∧ Trace.Truncated f.width 2 t t' := by
    have hforall := h.traces
    unfold trace at ht ⊢
    cases htraces : f.traces with
    | nil => rw [htraces] at ht; cases ht
    | cons t₀ rest =>
      rw [htraces] at ht hforall
      cases ht
      obtain ⟨t', rest', ht', -, htraces'⟩ := List.forall₂_cons_left_iff.mp hforall
      exact ⟨t', by rw [htraces']; rfl, ht'⟩
  refine ⟨s', hs', f, f', t, t', hf, hf', ?_, ht, hlength, ht', ?_, htruncated.samples, ?_, ?_⟩
  · rw [h.same]
  · rw [htruncated.length, hlength, hwidth]
    rfl
  · rw [h.binary.same]
  · intro values hvalues
    obtain ⟨-, hread⟩ := h.read 0 t values ht hvalues
    rwa [samples, hlength, hwidth, hstep] at hread

end File

end SegY
