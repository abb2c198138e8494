import SegY.Proofs.SampleRanges
import SegY.Proofs.TruncatedFiles

/-!
# Reading the traces that were found

Every read of samples tests its range against the file first.  The traces of an open file pass
these tests, since a scan gives none but those that lie in the file and are whole numbers of
samples.  What is left that can fail is the format, which may be one that is known but not read,
and the index of a single sample.

A step has a say only in which samples are read together.  The scan does not look at it, so a file
can be opened with another step and has the same traces.

* `File.Readable`: what a trace gives that can be read.
* `File.readable_of_fits`: every trace does that lies in the file and is a whole number of samples.
* `File.ofImage_withStep`: another step opens the same file.
* `Reader.traces_readable`: the traces of every open file can be read, with every step.
-/

namespace SegY

/-! ### Traces that can be read -/

/-- The formats that are known, but not read. -/
theorem SampleFormat.exists_error_decoder_iff {f : SampleFormat} :
    (∃ e, f.decoder = .error e) ↔ f ∈ [fixedPoint, int24, uint24] := by
  cases f <;> simp [decoder, storage]

namespace File

/-- What reading a trace gives that lies in the file and is a whole number of samples: every
`step`-th of its samples, as floats, if the format is one that is read. -/
structure Readable (f : File) (step : Nat) (t : Trace) : Prop where
  inside : t.start + t.length ≤ f.image.size
  whole : f.width ∣ t.length
  /-- Nothing is said to be wrong with the file, whatever is asked for. -/
  sound : ∀ q e, f.answer t q ≠ .error (.malformed e)
  /-- The samples cannot be read exactly if the format cannot. -/
  format : (∃ e, f.read t = .error (.conversion e)) ↔
    f.binary.format ∈ [.fixedPoint, .int24, .uint24]
  /-- Otherwise they are those that the step selects, each as it is read on its own. -/
  samples : f.binary.format ∉ [.fixedPoint, .int24, .uint24] → ∃ floats, f.read t = .ok floats ∧
    floats.length = (f.samples t + step - 1) / step ∧
    ∀ k x, floats[k]? = some x → f.readPoint t (k * step) = .ok x
  /-- The index of a sample that is read is a 64-bit number, and so is the sum with the step. -/
  next : ∀ k, k * step < f.samples t → k * step + step < sizeLimit
  /-- A single sample is refused exactly if the trace does not have it. -/
  index : ∀ j, (∃ e, f.readPoint t j = .error (.index e)) ↔ f.samples t ≤ j

section Trace

variable {f : File} {t : Trace} (hend : t.start + t.length ≤ f.image.size)

/-- A sample that the trace does not have is refused, whatever its format. -/
theorem readPoint_of_le {j : Nat} (hj : f.samples t ≤ j) :
    f.readPoint t j = .error (.index (.sample j (f.samples t))) := by
  have hsample : f.checkSample t j = .error (.index (.sample j (f.samples t))) := by
    rw [checkSample, if_pos hj]
  rw [readPoint, readPointBytes, hsample]
  rfl

include hend

/-- A single sample is read as the format says, if it can. -/
theorem readPoint_of_lt {j : Nat} (hj : j < f.samples t) :
    f.readPoint t j = (f.binary.format.decoder.mapError .conversion).map fun decode =>
      decode f.binary.order (f.image.slice (t.start + j * f.width) f.width) := by
  rw [readPoint, readPointBytes_eq_slice hend hj]
  cases f.binary.format.decoder <;> rfl

theorem exists_index_readPoint_iff (j : Nat) :
    (∃ e, f.readPoint t j = .error (.index e)) ↔ f.samples t ≤ j := by
  rcases Nat.lt_or_ge j (f.samples t) with hlt | hge
  · rw [readPoint_of_lt hend hlt]
    refine iff_of_false ?_ (Nat.not_le.mpr hlt)
    rintro ⟨e, he⟩
    cases hdecoder : f.binary.format.decoder <;> rw [hdecoder] at he <;> cases he
  · exact iff_of_true ⟨_, readPoint_of_le hge⟩ hge

variable (hwhole : f.width ∣ t.length)
include hwhole

/-- A range of whole samples that lies in the file passes the tests of a range. -/
theorem answer_ne_malformed_of_fits (q : SampleRequest) (e : StructureError) :
    f.answer t q ≠ .error (.malformed e) := by
  refine answer_ne_malformed ?_ ?_
  · rw [checkRange_of_fits hend]
    exact Except.ok_ne_error
  · rw [checkWhole, if_pos (Nat.mod_eq_zero_of_dvd hwhole)]
    exact Except.ok_ne_error

/-- What is read of a trace is what is read sample by sample. -/
theorem readPoint_of_read (hstep : 0 < f.settings.step) {floats : List Float32Word}
    (h : f.read t = .ok floats) {k : Nat} {x : Float32Word} (hx : floats[k]? = some x) :
    f.readPoint t (k * f.settings.step) = .ok x := by
  obtain ⟨decode, hdecode, rfl⟩ :=
    Except.map_eq_ok_iff.mp (read_eq_map_everyNth hend hwhole hstep ▸ h)
  rw [List.getElem?_map] at hx
  obtain ⟨b, hb, rfl⟩ := Option.map_eq_some_iff.mp hx
  have hpoint := (isEveryNth_everyNth hend hstep).point k b hb
  rw [readPoint, hpoint, hdecode]
  rfl

/-- **A trace that lies in the file and is a whole number of samples can be read.** -/
theorem readable_of_fits (hmax : f.samples t ≤ maxSamples) (hstep : 0 < f.settings.step)
    (hlt : f.settings.step < sizeLimit) : f.Readable f.settings.step t where
  inside := hend
  whole := hwhole
  sound := answer_ne_malformed_of_fits hend hwhole
  format := by
    rw [read_eq_map_everyNth hend hwhole hstep, ← SampleFormat.exists_error_decoder_iff]
    cases f.binary.format.decoder with
    | ok decode => simp [Except.map]
    | error e => exact iff_of_true ⟨e, rfl⟩ ⟨e, rfl⟩
  samples hformat := by
    have hdecoder : ∃ decode, f.binary.format.decoder = .ok decode := by
      by_contra hno
      exact hformat (SampleFormat.exists_error_decoder_iff.mp (Except.exists_error_iff.mpr hno))
    obtain ⟨decode, hdecode⟩ := hdecoder
    have hread : ∃ floats, f.read t = .ok floats := by
      rw [read_eq_map_everyNth hend hwhole hstep, hdecode]
      exact ⟨_, rfl⟩
    obtain ⟨floats, hfloats⟩ := hread
    exact ⟨floats, hfloats, length_of_read hend hwhole hstep hfloats,
      fun k x hx => readPoint_of_read hend hwhole hstep hfloats hx⟩
  next k hk := by
    cases k with
    | zero => rwa [Nat.zero_mul, Nat.zero_add]
    | succ k =>
      -- a step from one sample to another is less than the number of samples
      have hle : f.settings.step ≤ (k + 1) * f.settings.step := Nat.le_mul_of_pos_left _ k.succ_pos
      calc (k + 1) * f.settings.step + f.settings.step
          ≤ maxSamples + maxSamples := by omega
        _ < sizeLimit := by decide
  index := exists_index_readPoint_iff hend

end Trace

end File

/-! ### Another step -/

/-- The settings with another step. -/
def Settings.withStep (s : Settings) (n : Nat) : Settings := { s with step := n }

/-- A scan with another step finds the same. -/
theorem scan_withStep (image : Image) (first : Nat) (binary : BinaryHeader) (s : Settings)
    (n : Nat) : scan image first binary (s.withStep n) = scan image first binary s := by
  have hstep : ∀ pos k,
      Scan.step image binary (s.withStep n) pos k = Scan.step image binary s pos k := fun _ _ => rfl
  have htrace : ∀ pos header length, Scan.trace? binary (s.withStep n) pos header length =
      (Scan.trace? binary s pos header length).map id := fun _ _ _ => Option.map_id_apply.symm
  rw [scan, scan, Scan.walk_eq_map hstep htrace]
  cases Scan.walk image binary s first 0 <;> simp [Except.map, Scan.cut, Settings.withStep]

namespace File

/-- The file with another step. -/
def withStep (f : File) (n : Nat) : File := { f with settings := f.settings.withStep n }

/-- With another step the same file is opened. -/
theorem ofImage_withStep (s : Settings) (n : Nat) (image : Image) :
    ofImage (s.withStep n) image = (ofImage s image).map (·.withStep n) := by
  refine ofImage_eq_map (fun _ => rfl) fun labelled label binary => ?_
  simp only [withTraces, scan_withStep]
  split
  · rfl
  · cases scan image _ binary s <;> rfl

/-- Single samples do not ask for the step. -/
theorem readPoint_withStep (f : File) (n : Nat) (t : Trace) (j : Nat) :
    (f.withStep n).readPoint t j = f.readPoint t j := rfl

end File

namespace Reader

/-- Where a file is opened: in memory, or at a path. -/
inductive Source where
  | memory (b : Bytes)
  | path (d : Directory) (path : Bytes)

/-- The reader of what is opened. -/
def ofSource (s : Settings) : Source → Except Error Reader
  | .memory b => ofBytes s b
  | .path d path => ofPath d s path

theorem isOpen_of_ofSource {s : Settings} (hs : s.Reachable) {source : Source} {r : Reader}
    (h : ofSource s source = .ok r) : r.IsOpen := by
  cases source with
  | memory b => exact .ofBytes hs h
  | path d path => exact .ofPath hs h

/-- The reader with another step. -/
def withStep (r : Reader) (n : Nat) : Reader := { r with opened := r.opened.withStep n }

theorem file_withStep (r : Reader) (n : Nat) (d : Directory) :
    (r.withStep n).file d = (r.file d).withStep n := by
  simp only [file, withStep]
  split <;> rfl

/-- With another step the same reader is opened. -/
theorem ofSource_withStep (s : Settings) (n : Nat) (source : Source) :
    ofSource (s.withStep n) source = (ofSource s source).map (·.withStep n) := by
  cases source with
  | memory b =>
    rw [ofSource, ofSource, ofBytes, ofBytes, File.ofBytes, File.ofBytes, File.ofImage_withStep]
    cases File.ofImage s b.toArray <;> rfl
  | path d path =>
    rw [ofSource, ofSource, ofPath, ofPath]
    cases d.find path with
    | error e => rfl
    | ok l =>
      show (File.ofImage (s.withStep n) _ >>= _) = (File.ofImage s _ >>= _).map _
      rw [File.ofImage_withStep]
      cases File.ofImage s ((d.get? l).getD []).toArray <;> rfl

/-- **Every trace of an open file can be read, with every step.**  Take a file that can be opened,
in memory or at a path.  It can be opened with every other step but zero as well, and has the same
traces then.  Each of them lies in the file and is a whole number of samples, so nothing that is
asked of it finds fault with the file.  The samples that the step selects are read, unless the
format is one that is not, and each is what it is read as on its own.  Single samples are refused
exactly if the trace does not have them, and are the same with every step.

All of this is so whatever was written into the file since it was opened. -/
theorem traces_readable {s : Settings} (hs : s.Reachable) {source : Source} {r : Reader}
    (hr : ofSource s source = .ok r) {n : UInt64} (hn : n ≠ 0) :
    ∃ s' r', s.apply (.step n) = .ok s' ∧ ofSource s' source = .ok r' ∧
      r'.opened.size = r.opened.size ∧ ∀ i < r.opened.size, ∃ t, r.opened.trace i = .ok t ∧
        r'.opened.trace i = .ok t ∧ ∀ d, (r'.file d).Readable n.toNat t ∧
          (r'.file d).readTrace i = (r'.file d).read t ∧
          ∀ j, (r'.file d).readPoint t j = (r.file d).readPoint t j := by
  have hs' : s.apply (.step n) = .ok (s.withStep n.toNat) :=
    Settings.apply_step_eq_ok_iff.mpr ⟨hn, rfl⟩
  have hr' : ofSource (s.withStep n.toNat) source = .ok (r.withStep n.toNat) := by
    rw [ofSource_withStep, hr]
    rfl
  refine ⟨_, _, hs', hr', rfl, fun i hi => ?_⟩
  have hopen := isOpen_of_ofSource (hs.apply hs') hr'
  obtain ⟨t, ht⟩ : ∃ t, r.opened.trace i = .ok t :=
    ⟨_, by rw [File.trace, List.getElem?_eq_getElem hi]⟩
  have ht' : (r.withStep n.toNat).opened.trace i = .ok t := ht
  refine ⟨t, ht, ht', fun d => ⟨?_, ?_, fun j => ?_⟩⟩
  · obtain ⟨hend, hwhole⟩ := hopen.fits ht' d
    have hlt : ((r.withStep n.toNat).file d).settings.step < File.sizeLimit := by
      rw [file_withStep]
      exact n.toNat_lt_size
    have h := File.readable_of_fits hend hwhole (hopen.samples_le ht' d) (hopen.step_pos d) hlt
    rwa [file_withStep] at h ⊢
  · refine File.readTrace_of_trace ?_
    obtain ⟨_, _, hfile⟩ := (r.withStep n.toNat).file_eq d
    rw [hfile]
    exact ht'
  · rw [file_withStep, File.readPoint_withStep]

/-- With a step of two the first and the last of the samples 7, 8 and 9 are read. -/
theorem traces_readable_sevenEightNine :
    ∃ r t floats, ofSource { step := 2 } (.memory sevenEightNine) = .ok r ∧
      r.opened.trace 0 = .ok t ∧ (r.file {}).readTrace 0 = .ok floats ∧ floats.length = 2 ∧
      (∀ k x, floats[k]? = some x → (r.file {}).readPoint t (k * 2) = .ok x) ∧
      ∃ e, (r.file {}).readPoint t 3 = .error (.index e) := by
  obtain ⟨f, t, hopen, -, -, ht, -, -, -, -⟩ := ofBytes_sevenEightNine 1
  have hr : ofSource {} (.memory sevenEightNine) = .ok ⟨f, none⟩ := hopen
  have hsize : 0 < f.size := List.length_pos_of_mem (File.mem_of_trace ht)
  obtain ⟨s', r', hs', hr', -, h⟩ := traces_readable .default hr (n := 2) (by decide)
  obtain ⟨t', -, ht', hread⟩ := h 0 hsize
  obtain ⟨readable, hindex, -⟩ := hread {}
  -- the file with the other step is known as well
  obtain ⟨g, u, hopen', -, hwidth, hu, -, hlength, -, -⟩ := ofBytes_sevenEightNine 2
  cases (rfl : Settings.apply {} (.step 2) = .ok { step := 2 }).symm.trans hs'
  cases hopen'.symm.trans hr'
  cases hu.symm.trans ht'
  have hsamples : g.samples t' = 3 := by
    rw [File.samples, hwidth, hlength]
  have hformat : g.binary.format ∉ [.fixedPoint, .int24, .uint24] := by
    rw [File.width] at hwidth
    cases hf : g.binary.format <;> rw [hf] at hwidth <;> revert hwidth <;> decide
  obtain ⟨floats, hfloats, hcount, hpoints⟩ := readable.samples hformat
  refine ⟨_, t', floats, hopen', hu, hindex.trans hfloats, ?_, hpoints, ?_⟩
  · rw [hcount]
    show (g.samples t' + 2 - 1) / 2 = 2
    rw [hsamples]
  · exact (readable.index 3).mpr (Nat.le_of_eq hsamples)

end Reader

end SegY
