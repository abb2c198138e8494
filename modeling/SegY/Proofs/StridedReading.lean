import SegY.Proofs.FileCodec
import SegY.Proofs.OpenedFiles
import SegY.Proofs.ReachableSettings
import SegY.Proofs.SampleReading
import SegY.Reader

/-!
# Reading every n-th sample

With a step, every `step`-th sample of a trace is read, from the first one on.  `File.readBytes`
finds them by their distance in bytes, the step times the width of a sample, which is a 64-bit
number.  If this product wraps, then other samples are read than those that the step selects, or
the end of the trace is never reached.

* `File.everyNth`: the samples that a step selects, each of them read on its own
  (`File.isEveryNth_everyNth`).
* `File.read_eq_map_everyNth`: as floats, it is always these that are read.
* `File.readBytes_eq_flatten_iff`: when they are what is read.
* `Reader.readBytes_eq_everyNth_iff`: the same of the traces of every open file, and what is read
  otherwise.
* `Reader.readBytes_ne_everyNth`: a step with which other samples are read.
-/

namespace SegY

namespace File

/-! ### The samples that a step selects -/

/-- Whether these are the samples `0`, `step`, `2 * step`, … of a trace, each of them read on its
own, up to the last sample that the trace has. -/
structure IsEveryNth (f : File) (t : Trace) (step : Nat) (points : List Bytes) : Prop where
  count : ∀ k, k < points.length ↔ k * step < f.samples t
  point : ∀ k p, points[k]? = some p → f.readPointBytes t (k * step) = .ok p

theorem lt_countEvery_iff {step : Nat} (hstep : 0 < step) {k total : Nat} :
    k < countEvery step total ↔ k * step < total := by
  rw [countEvery, ← Nat.add_one_le_iff, Nat.le_div_iff_mul_le hstep, Nat.succ_mul]
  omega

/-- So many things are taken as there are multiples of the step. -/
theorem countEvery_eq {step total n : Nat} (hstep : 0 < step)
    (h : ∀ k, k < n ↔ k * step < total) : countEvery step total = n := by
  have h' : ∀ k, k < countEvery step total ↔ k < n := fun k => by
    rw [lt_countEvery_iff hstep, h]
  have h₁ := h' n
  have h₂ := h' (countEvery step total)
  omega

theorem countEvery_zero (step : Nat) : countEvery step 0 = 0 := by
  rcases Nat.eq_zero_or_pos step with rfl | hstep
  · rfl
  · exact countEvery_eq hstep fun k => by simp

theorem countEvery_of_le {step total : Nat} (hpos : 0 < total) (hle : total ≤ step) :
    countEvery step total = 1 :=
  countEvery_eq (by omega) fun k => by
    cases k with
    | zero => simpa using hpos
    | succ k =>
        rw [Nat.succ_mul]
        omega

/-- Every `step`-th sample of a trace. -/
def everyNth (f : File) (t : Trace) (step : Nat) : List Bytes :=
  (List.range (countEvery step (f.samples t))).map fun k =>
    f.image.slice (t.start + k * step * f.width) f.width

@[simp] theorem length_everyNth (f : File) (t : Trace) (step : Nat) :
    (f.everyNth t step).length = countEvery step (f.samples t) := by
  simp [everyNth]

theorem width_pos (f : File) : 0 < f.width := f.binary.format.width_pos

theorem width_le (f : File) : f.width ≤ 8 := by
  rw [width]
  cases f.binary.format <;> decide

section Trace

variable {f : File} {t : Trace} (hend : t.start + t.length ≤ f.image.size)
include hend

/-- A sample of a trace lies in the file. -/
theorem sample_fits {n : Nat} (hn : n < f.samples t) :
    t.start + n * f.width + f.width ≤ f.image.size := by
  have h := (Nat.le_div_iff_mul_le f.width_pos).mp (Nat.succ_le_of_lt hn)
  rw [Nat.succ_mul] at h
  omega

theorem readPointBytes_eq_slice {n : Nat} (hn : n < f.samples t) :
    f.readPointBytes t n = .ok (f.image.slice (t.start + n * f.width) f.width) := by
  have hsample : f.checkSample t n = .ok () := by
    rw [checkSample, if_neg (Nat.not_le.mpr hn)]
  have hfits := sample_fits hend hn
  simp only [readPointBytes, hsample, checkRange_of_fits hend, bind, Except.bind]
  rw [if_neg (by omega)]
  rfl

theorem isEveryNth_everyNth {step : Nat} (hstep : 0 < step) :
    f.IsEveryNth t step (f.everyNth t step) where
  count k := by rw [length_everyNth, lt_countEvery_iff hstep]
  point k p hp := by
    obtain ⟨hk, rfl⟩ := List.getElem?_eq_some_iff.mp hp
    rw [length_everyNth, lt_countEvery_iff hstep] at hk
    rw [readPointBytes_eq_slice hend hk]
    simp [everyNth]

/-! ### What is read -/

/-- Unless all of a trace is read, pieces of it are read that lie as far apart as the stride. -/
theorem readBytes_of_stride (hstep : f.settings.step ≠ 1)
    (hstride : 0 < f.stride ∨ t.length = 0) :
    f.readBytes t = .ok ((List.range (countEvery f.stride t.length)).map fun k =>
      f.image.slice (t.start + k * f.stride) (min f.width (t.length - k * f.stride))).flatten := by
  have hpieces : f.pieces t f.width f.stride (countEvery f.stride t.length) = _ :=
    pieces_eq_ok fun k hk => by
      rcases hstride with hpos | hzero
      · rw [lt_countEvery_iff hpos] at hk
        omega
      · rw [hzero, countEvery_zero] at hk
        omega
  simp only [readBytes, checkRange_of_fits hend, if_neg hstep, hpieces, bind, Except.bind]
  rw [if_neg (by omega)]
  rfl

/-- A stride that wraps to zero leads nowhere. -/
theorem readBytes_of_no_stride (hstep : f.settings.step ≠ 1) (hstride : f.stride = 0)
    (hlength : 0 < t.length) : f.readBytes t = .error (.wrapped .noProgress) := by
  simp only [readBytes, checkRange_of_fits hend, if_neg hstep, bind, Except.bind]
  rw [if_pos ⟨hstride, hlength⟩]

/-- There is an answer unless the stride wraps to zero. -/
theorem exists_readBytes_iff :
    (∃ b, f.readBytes t = .ok b) ↔ 0 < f.stride ∨ t.length = 0 := by
  by_cases hone : f.settings.step = 1
  · have hpos : 0 < f.stride := by
      have hwidth : f.width < sizeLimit := Nat.lt_of_le_of_lt f.width_le (by decide)
      rw [stride, hone, Nat.one_mul, Nat.mod_eq_of_lt hwidth]
      exact f.width_pos
    exact ⟨fun _ => .inl hpos, fun _ => ⟨_, readBytes_eq_slice hone hend⟩⟩
  constructor
  · rintro ⟨b, hb⟩
    by_contra hno
    rw [readBytes_of_no_stride hend hone (by omega) (by omega)] at hb
    cases hb
  · exact fun h => ⟨_, readBytes_of_stride hend hone h⟩

variable (hwhole : f.width ∣ t.length)
include hwhole

/-- With a step of one all of a trace is read. -/
theorem flatten_everyNth_one : (f.everyNth t 1).flatten = f.image.slice t.start t.length := by
  have hcount : countEvery 1 (f.samples t) = f.samples t := by simp [countEvery]
  have hlength : f.samples t * f.width = t.length := Nat.div_mul_cancel hwhole
  have hpiece : ∀ k ∈ List.range (f.samples t),
      f.image.slice (t.start + k * 1 * f.width) f.width =
        Bytes.slice (f.image.slice t.start t.length) (k * f.width) f.width := fun k hk => by
    have hfits : (k + 1) * f.width ≤ t.length := by
      rw [← hlength]
      exact Nat.mul_le_mul_right _ (List.mem_range.mp hk)
    rw [Nat.succ_mul] at hfits
    rw [Nat.mul_one, Image.slice_eq, Image.slice_eq, Bytes.slice_slice hfits]
  rw [everyNth, hcount, List.map_congr_left hpiece, Bytes.flatten_slices, hlength]
  exact List.take_of_length_le (Nat.le_of_eq (Image.length_slice hend))

/-- As long as the stride does not wrap, the samples are read that the step selects. -/
theorem readBytes_of_lt (hstep : 0 < f.settings.step)
    (hlt : f.settings.step * f.width < sizeLimit) :
    f.readBytes t = .ok (f.everyNth t f.settings.step).flatten := by
  by_cases hone : f.settings.step = 1
  · rw [hone, flatten_everyNth_one hend hwhole, readBytes_eq_slice hone hend]
  have hstride : f.stride = f.settings.step * f.width := Nat.mod_eq_of_lt hlt
  have hpos : 0 < f.stride := hstride ▸ Nat.mul_pos hstep f.width_pos
  have hlength : f.samples t * f.width = t.length := Nat.div_mul_cancel hwhole
  have hbytes : ∀ k, k * f.stride < t.length ↔ k * f.settings.step < f.samples t := fun k => by
    rw [hstride, ← hlength, ← Nat.mul_assoc, Nat.mul_lt_mul_right f.width_pos]
  have hcount : countEvery f.stride t.length = countEvery f.settings.step (f.samples t) :=
    countEvery_eq hpos fun k => by rw [lt_countEvery_iff hstep, hbytes]
  rw [readBytes_of_stride hend hone (.inl hpos), everyNth, hcount]
  refine congrArg (fun pieces => Except.ok (List.flatten pieces))
    (List.map_congr_left fun k hk => ?_)
  rw [List.mem_range, lt_countEvery_iff hstep] at hk
  have hfits := sample_fits hend hk
  have hsucc : (k * f.settings.step + 1) * f.width ≤ t.length := by
    rw [← hlength]
    exact Nat.mul_le_mul_right _ hk
  rw [Nat.succ_mul, Nat.mul_assoc, ← hstride] at hsucc
  rw [Nat.min_eq_left (by omega), hstride, Nat.mul_assoc]

/-- As floats the samples are read that the step selects, whether its stride wraps or not. -/
theorem read_eq_map_everyNth (hstep : 0 < f.settings.step) :
    f.read t = (f.binary.format.decoder.mapError .conversion).map fun decode =>
      (f.everyNth t f.settings.step).map (decode f.binary.order) := by
  have hcheck : f.checkWhole t = .ok () := by
    rw [checkWhole, if_pos (Nat.mod_eq_zero_of_dvd hwhole)]
  have hlength : f.samples t * f.width = t.length := Nat.div_mul_cancel hwhole
  have hfits : ∀ k < countEvery f.settings.step (f.samples t),
      k * (f.settings.step * f.width) + f.width ≤ t.length := fun k hk => by
    rw [lt_countEvery_iff hstep] at hk
    have hsucc : (k * f.settings.step + 1) * f.width ≤ t.length := by
      rw [← hlength]
      exact Nat.mul_le_mul_right _ hk
    rwa [Nat.succ_mul, Nat.mul_assoc] at hsucc
  have hpieces : f.pieces t f.width (f.settings.step * f.width)
      (countEvery f.settings.step (f.samples t)) = .ok (f.everyNth t f.settings.step) := by
    rw [pieces_eq_ok fun k hk => by have := hfits k hk; omega, everyNth]
    refine congrArg Except.ok (List.map_congr_left fun k hk => ?_)
    have hk := hfits k (List.mem_range.mp hk)
    rw [Nat.min_eq_left (by omega), Nat.mul_assoc]
  simp only [read, checkRange_of_fits hend, hcheck, hpieces]
  cases f.binary.format.decoder <;> rfl

section Wrapped

variable (hsize : f.image.size < sizeLimit)
include hsize

/-- A step so large that the stride wraps selects at most one sample. -/
theorem everyNth_of_le (hlarge : sizeLimit ≤ f.settings.step * f.width) (hlength : 0 < t.length) :
    f.everyNth t f.settings.step = [f.image.slice t.start f.width] := by
  have hsamples : f.samples t * f.width = t.length := Nat.div_mul_cancel hwhole
  have hle : f.samples t ≤ f.settings.step := by
    have h : f.samples t * f.width < f.settings.step * f.width := by omega
    exact Nat.le_of_lt (Nat.lt_of_mul_lt_mul_right h)
  have hpos : 0 < f.samples t := by
    refine Nat.pos_of_ne_zero fun h0 => ?_
    rw [h0, Nat.zero_mul] at hsamples
    omega
  simp [everyNth, countEvery_of_le hpos hle]

/-- A stride that wraps selects the same sample if it leads beyond the end of the trace. -/
theorem readBytes_of_le_stride (hlarge : sizeLimit ≤ f.settings.step * f.width)
    (hstride : t.length ≤ f.stride) :
    f.readBytes t = .ok (f.everyNth t f.settings.step).flatten := by
  have hone : f.settings.step ≠ 1 := fun hone => by
    have hwidth : f.width < sizeLimit := Nat.lt_of_le_of_lt f.width_le (by decide)
    rw [hone, Nat.one_mul] at hlarge
    omega
  rw [readBytes_of_stride hend hone (by omega)]
  rcases Nat.eq_zero_or_pos t.length with hzero | hlength
  · have hsamples : f.samples t = 0 := by rw [samples, hzero, Nat.zero_div]
    simp [everyNth, hzero, hsamples, countEvery_zero]
  · have hwidth := Nat.le_of_dvd hlength hwhole
    simp [everyNth_of_le hend hwhole hsize hlarge hlength, countEvery_of_le hlength hstride,
      Nat.min_eq_left hwidth]

/-- If the stride wraps to a distance inside the trace, then other bytes are read, or none. -/
theorem readBytes_ne_of_stride_lt (hlarge : sizeLimit ≤ f.settings.step * f.width)
    (hstride : f.stride < t.length) :
    f.readBytes t ≠ .ok (f.everyNth t f.settings.step).flatten := by
  have hlength : 0 < t.length := by omega
  have hwidth := Nat.le_of_dvd hlength hwhole
  have hone : f.settings.step ≠ 1 := fun hone => by
    rw [hone, Nat.one_mul] at hlarge
    omega
  rw [everyNth_of_le hend hwhole hsize hlarge hlength]
  rcases Nat.eq_zero_or_pos f.stride with hzero | hpos
  · rw [readBytes_of_no_stride hend hone hzero hlength]
    intro h
    cases h
  · rw [readBytes_of_stride hend hone (.inl hpos)]
    obtain ⟨n, hn⟩ : ∃ n, countEvery f.stride t.length = n + 2 := by
      have h : 1 < countEvery f.stride t.length := (lt_countEvery_iff hpos).mpr (by omega)
      exact ⟨countEvery f.stride t.length - 2, by omega⟩
    intro h
    -- the second piece is not empty, so what is read is longer than a sample
    have hlengths := congrArg List.length (Except.ok.inj h)
    have hmin : min f.width (t.length - 0 * f.stride) = f.width := by omega
    rw [hn, List.range_succ_eq_map, List.range_succ_eq_map] at hlengths
    simp only [List.map_cons, List.flatten_cons, List.length_append, List.flatten_nil,
      List.length_nil, hmin] at hlengths
    rw [Image.length_slice (by omega), Image.length_slice (by omega),
      Image.length_slice (by omega)] at hlengths
    have := f.width_pos
    omega

/-- **When every n-th sample is read.**  What is read are the samples that the step selects
exactly if the distance from one to the next does not wrap, or wraps to one that leads beyond the
end of the trace. -/
theorem readBytes_eq_flatten_iff (hstep : 0 < f.settings.step) :
    f.readBytes t = .ok (f.everyNth t f.settings.step).flatten ↔
      f.settings.step * f.width < sizeLimit ∨ t.length ≤ f.stride := by
  rcases Nat.lt_or_ge (f.settings.step * f.width) sizeLimit with hlt | hlarge
  · exact ⟨fun _ => .inl hlt, fun _ => readBytes_of_lt hend hwhole hstep hlt⟩
  constructor
  · intro h
    refine .inr (Nat.not_lt.mp fun hstride => ?_)
    exact readBytes_ne_of_stride_lt hend hwhole hsize hlarge hstride h
  · rintro (hlt | hstride)
    · exact absurd hlt (Nat.not_lt.mpr hlarge)
    · exact readBytes_of_le_stride hend hwhole hsize hlarge hstride

end Wrapped

end Trace

end File

/-! ### Open files -/

theorem Directory.length_resized (content : Bytes) (length : Nat) :
    (resized content length).length = length := by
  simp only [resized, List.length_append, List.length_take, List.length_replicate]
  omega

namespace Reader

/-- A reader that was made by opening a file, from its path or in memory. -/
inductive IsOpen : Reader → Prop where
  | ofPath {d : Directory} {s : Settings} {path : Bytes} {r : Reader} (hs : s.Reachable)
      (h : Reader.ofPath d s path = .ok r) : IsOpen r
  | ofBytes {s : Settings} {b : Bytes} {r : Reader} (hs : s.Reachable)
      (h : Reader.ofBytes s b = .ok r) : IsOpen r

theorem IsOpen.exists_ofImage {r : Reader} (h : r.IsOpen) :
    ∃ s image, s.Reachable ∧ File.ofImage s image = .ok r.opened := by
  cases h with
  | @ofPath d s path r hs h =>
      obtain ⟨l, -, h⟩ := Except.bind_eq_ok_iff.mp h
      obtain ⟨f, hf, h⟩ := Except.bind_eq_ok_iff.mp h
      cases h
      exact ⟨s, _, hs, hf⟩
  | @ofBytes s b r hs h =>
      obtain ⟨f, hf, rfl⟩ := Except.map_eq_ok_iff.mp h
      exact ⟨s, _, hs, hf⟩

/-- Whatever happens to its bytes, a file keeps its length, and all that was found in it. -/
theorem file_eq (r : Reader) (d : Directory) :
    ∃ image : Image, image.size = r.opened.image.size ∧
      r.file d = { r.opened with image := image } := by
  unfold file
  split
  · refine ⟨_, ?_, rfl⟩
    rw [presentImage, List.size_toArray, Directory.length_resized]
  · exact ⟨_, rfl, rfl⟩

/-- A trace of an open file lies in the file and is a whole number of samples, whatever was written
into the file since. -/
theorem IsOpen.fits {r : Reader} (hr : r.IsOpen) {i : Nat} {t : Trace}
    (ht : r.opened.trace i = .ok t) (d : Directory) :
    t.start + t.length ≤ (r.file d).image.size ∧ (r.file d).width ∣ t.length := by
  obtain ⟨s, image, -, hopen⟩ := hr.exists_ofImage
  obtain ⟨present, hpresent, hfile⟩ := r.file_eq d
  obtain ⟨hend, hwhole⟩ := File.sound_of_ofImage hopen t (File.mem_of_trace ht)
  rw [hfile]
  exact ⟨hpresent ▸ hend, hwhole⟩

theorem IsOpen.samples_le {r : Reader} (hr : r.IsOpen) {i : Nat} {t : Trace}
    (ht : r.opened.trace i = .ok t) (d : Directory) : (r.file d).samples t ≤ maxSamples := by
  obtain ⟨s, image, -, hopen⟩ := hr.exists_ofImage
  obtain ⟨_, _, hfile⟩ := r.file_eq d
  rw [hfile]
  exact File.samples_le_of_ofImage hopen (File.mem_of_trace ht)

theorem IsOpen.step_pos {r : Reader} (hr : r.IsOpen) (d : Directory) :
    0 < (r.file d).settings.step := by
  obtain ⟨s, image, hs, hopen⟩ := hr.exists_ofImage
  obtain ⟨_, _, hfile⟩ := r.file_eq d
  rw [hfile, (File.settings_of_ofImage hopen).1]
  exact hs.valid.step_pos

/-- **Reading every n-th sample.**  Take a trace of an open file.  The samples that the step
selects can each be read on their own, also if the file was written to in the meantime, and there
are as many as the number of samples divided by the step, rounded up.  They are what
`File.readBytes` gives exactly if the step times the width of a sample is a 64-bit number, or wraps
to one that leads beyond the end of the trace.  If it wraps to zero there is no answer.  With a
step of one all bytes of the trace are read. -/
theorem readBytes_eq_everyNth_iff {r : Reader} (hr : r.IsOpen)
    (hsize : r.opened.image.size < File.sizeLimit) {i : Nat} {t : Trace}
    (ht : r.opened.trace i = .ok t) (d : Directory) :
    let f := r.file d
    let step := f.settings.step
    ∃ points, f.IsEveryNth t step points ∧ points.length = (f.samples t + step - 1) / step ∧
      (f.readBytes t = .ok points.flatten ↔ step * f.width < File.sizeLimit ∨
        t.length ≤ step * f.width % File.sizeLimit) ∧
      ((∃ b, f.readBytes t = .ok b) ↔ 0 < step * f.width % File.sizeLimit ∨ t.length = 0) ∧
      (step = 1 → f.readBytes t = .ok (f.image.slice t.start t.length)) := by
  have hstep := hr.step_pos d
  obtain ⟨hend, hwhole⟩ := hr.fits ht d
  obtain ⟨present, hpresent, hfile⟩ := r.file_eq d
  have hsize' : (r.file d).image.size < File.sizeLimit := by
    rw [hfile]
    exact hpresent ▸ hsize
  intro f step
  refine ⟨f.everyNth t step, File.isEveryNth_everyNth hend hstep, File.length_everyNth ..,
    File.readBytes_eq_flatten_iff hend hwhole hsize' hstep,
    File.exists_readBytes_iff hend, fun hone => ?_⟩
  exact File.readBytes_eq_slice hone hend

/-- The header of a file of big-endian 16-bit integers, three to a trace. -/
def threeIntegers : BinaryHeader :=
  { BinaryHeader.blank.withSamples 3 with fixedLength := true, format := .int16 }

/-- A file with one trace, of the samples 7, 8 and 9. -/
def sevenEightNine : Bytes :=
  List.replicate TextHeader.size 0x43 ++ (threeIntegers.toBytes ++
    (List.replicate HeaderKind.trace.length 0 ++ [0, 7, 0, 8, 0, 9]))

/-- What is where in the file. -/
theorem slices_sevenEightNine :
    Image.slice sevenEightNine.toArray TextHeader.size HeaderKind.binary.length =
        threeIntegers.toBytes ∧
      Image.slice sevenEightNine.toArray 3600 HeaderKind.trace.length =
        List.replicate HeaderKind.trace.length 0 ∧
      Image.slice sevenEightNine.toArray 3840 6 = [0, 7, 0, 8, 0, 9] := by
  have hbinary := threeIntegers.length_toBytes
  have hheaders : (List.replicate TextHeader.size 0x43 ++ threeIntegers.toBytes).length = 3600 := by
    rw [List.length_append, List.length_replicate, hbinary]
    rfl
  have hhead : (List.replicate TextHeader.size 0x43 ++ (threeIntegers.toBytes ++
      List.replicate HeaderKind.trace.length 0)).length = 3840 := by
    rw [← List.append_assoc, List.length_append, hheaders, List.length_replicate]
    rfl
  have hbytes : sevenEightNine.toArray.toList = List.replicate TextHeader.size 0x43 ++
    (threeIntegers.toBytes ++
      (List.replicate HeaderKind.trace.length 0 ++ [0, 7, 0, 8, 0, 9])) := rfl
  refine ⟨?_, ?_, ?_⟩
  · have h := Image.slice_of_append hbytes
    rwa [List.length_replicate, hbinary] at h
  · rw [← List.append_assoc] at hbytes
    have h := Image.slice_of_append hbytes
    rwa [hheaders, List.length_replicate] at h
  · rw [← List.append_nil [0, 7, 0, 8, 0, 9], ← List.append_assoc threeIntegers.toBytes,
      ← List.append_assoc] at hbytes
    have h := Image.slice_of_append hbytes
    rwa [hhead] at h

/-- The file can be opened with any step, and has one trace. -/
theorem ofBytes_sevenEightNine (step : Nat) :
    ∃ f t, ofBytes { step } sevenEightNine = .ok ⟨f, none⟩ ∧ f.settings.step = step ∧
      f.width = 2 ∧ f.trace 0 = .ok t ∧ t.start = 3840 ∧ t.length = 6 ∧ f.image.size = 3846 ∧
      f.image.slice 3840 6 = [0, 7, 0, 8, 0, 9] := by
  have hsize : sevenEightNine.toArray.size = 3846 := by
    simp only [List.size_toArray, sevenEightNine, List.length_append, List.length_replicate,
      BinaryHeader.length_toBytes]
    rfl
  have hlabelled : TapeLabel.isPresent sevenEightNine.toArray = false := by
    refine TapeLabel.isPresent_of_isC (c := 0x43) ?_ (by decide)
    rw [List.getElem?_toArray, sevenEightNine, TextHeader.size, List.replicate_succ]
    rfl
  obtain ⟨hbinary, hheader, hsamples⟩ := slices_sevenEightNine
  have hopened : ofBytes { step } sevenEightNine =
      (File.ofImage { step } sevenEightNine.toArray).map fun f => ⟨f, none⟩ := rfl
  -- the bytes themselves are in the way from here on
  generalize sevenEightNine.toArray = image at *
  have hread : File.readBinary image false { step } = .ok threeIntegers.settled := by
    rw [File.readBinary, File.binaryStart, File.textStart, if_neg Bool.false_ne_true, Nat.zero_add,
      hbinary]
    exact threeIntegers.ofBytes_toBytes
  obtain ⟨header, hh⟩ : ∃ header,
      Scan.headerAt image threeIntegers.settled { step } 3600 0 = .ok header := by
    have h : (TraceHeader.ofBytes .big {} 0 (List.replicate HeaderKind.trace.length 0)).isOk := by
      decide +kernel
    rw [← hheader] at h
    exact Except.isOk_iff.mp h
  have hend : Scan.recordEnd image threeIntegers.settled 3600 = 3846 := rfl
  have hnext : Scan.recordEnd image threeIntegers.settled 3846 = 4092 := rfl
  have trail : Scan.Trail image threeIntegers.settled { step } 3600 0 1 [⟨header, 3840, 6⟩] 3846 :=
    .record Settings.valid_default.maxTraceCount_pos hh (by omega) (.here 3846 1)
  have hscan : scan image 3600 threeIntegers.settled { step } =
      .ok ⟨[⟨header, 3840, 6⟩], ⟨.endOfFile, 3846, 1, []⟩, threeIntegers.settled⟩ :=
    trail.scan_eq (.fixedEndOfFile rfl (by omega))
  have hopen := File.ofImage_eq_ok_iff.mpr
    ⟨by rw [hlabelled, hsize]; decide, none, _, _, by rw [hlabelled]; rfl,
      by rw [hlabelled]; exact hread, by rw [hlabelled, hsize]; decide,
      by rw [hlabelled]; exact hscan, rfl⟩
  rw [hopened, hopen]
  exact ⟨_, _, rfl, rfl, rfl, rfl, rfl, rfl, hsize, hsamples⟩

/-- With a step of two the first and the last sample are read. -/
theorem readBytes_eq_everyNth_iff_sevenEightNine :
    ∃ r t, ofBytes { step := 2 } sevenEightNine = .ok r ∧ r.IsOpen ∧
      r.opened.image.size < File.sizeLimit ∧ r.opened.trace 0 = .ok t ∧
      ∃ points, (r.file {}).IsEveryNth t 2 points ∧ points.length = 2 ∧
        (r.file {}).readBytes t = .ok points.flatten := by
  obtain ⟨f, t, hopen, hstep, hwidth, ht, -, hlength, hsize, -⟩ := ofBytes_sevenEightNine 2
  have hreachable : Settings.Reachable { step := 2 } := Settings.reachable_step (n := 2) (by decide)
  have hisOpen : (Reader.mk f none).IsOpen := .ofBytes hreachable hopen
  have hlimit : f.image.size < File.sizeLimit := hsize ▸ by decide
  refine ⟨_, t, hopen, hisOpen, hlimit, ht, ?_⟩
  obtain ⟨points, hpoints, hcount, hread, -⟩ := readBytes_eq_everyNth_iff hisOpen hlimit ht {}
  have hfile : (Reader.mk f none).file {} = f := rfl
  rw [hfile, hstep] at hpoints hcount hread
  rw [hwidth] at hread
  refine ⟨points, hpoints, ?_, hread.mpr (.inl (by decide))⟩
  rw [hcount, File.samples, hwidth, hlength]

/-- **A step with which other samples are read.**  Of three samples this step selects the first
alone; but twice the step is 2 as a 64-bit number, and all three are read. -/
theorem readBytes_ne_everyNth :
    ∃ r t, ofBytes { step := 2 ^ 63 + 1 } sevenEightNine = .ok r ∧ r.IsOpen ∧
      r.opened.trace 0 = .ok t ∧ (r.file {}).IsEveryNth t (2 ^ 63 + 1) [[0, 7]] ∧
      (r.file {}).readBytes t = .ok [0, 7, 0, 8, 0, 9] := by
  obtain ⟨f, t, hopen, hstep, hwidth, ht, hstart, hlength, hsize, hsamples⟩ :=
    ofBytes_sevenEightNine (2 ^ 63 + 1)
  have hreachable : Settings.Reachable { step := 2 ^ 63 + 1 } :=
    Settings.reachable_step (n := 9223372036854775809) (by decide)
  have hend : t.start + t.length ≤ f.image.size := by omega
  have hlimit : f.image.size < File.sizeLimit := hsize ▸ by decide
  have hstride : f.stride = 2 := by rw [File.stride, hstep, hwidth]; decide
  have hpiece : ∀ k ∈ List.range (File.countEvery 2 6),
      f.image.slice (3840 + k * 2) (min 2 (6 - k * 2)) =
        Bytes.slice [0, 7, 0, 8, 0, 9] (k * 2) (min 2 (6 - k * 2)) := fun k hk => by
    have hk' : k < 3 := List.mem_range.mp hk
    rw [← hsamples, Image.slice_eq, Image.slice_eq, Bytes.slice_slice (by omega)]
  refine ⟨_, t, hopen, .ofBytes hreachable hopen, ht, ?_, ?_⟩
  · have hfirst : f.image.slice 3840 2 = [0, 7] := hpiece 0 (List.mem_range.mpr (by decide))
    have hpoints := File.everyNth_of_le hend (by rw [hwidth, hlength]; decide) hlimit
      (by rw [hstep, hwidth]; decide) (by rw [hlength]; decide)
    rw [hstep, hwidth, hstart, hfirst] at hpoints
    exact hpoints ▸ File.isEveryNth_everyNth hend (by decide)
  · have h := File.readBytes_of_stride hend (by rw [hstep]; decide)
      (.inl (by rw [hstride]; decide))
    rw [hstride, hwidth, hstart, hlength, List.map_congr_left hpiece] at h
    exact h

end Reader

end SegY
