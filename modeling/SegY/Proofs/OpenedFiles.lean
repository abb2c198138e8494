import SegY.File
import SegY.Proofs.Results
import SegY.Proofs.ScanTiling

/-!
# Opened files

A file is opened in stages, each of which looks at what the stages before it found: its length,
the label, the binary header, the extended text headers, the traces.

* `File.ofImage_eq_ok_iff`: an opened file, taken apart into what the stages found.
* `File.sound_of_ofImage`: each trace of an opened file lies inside the file, and is a whole number
  of samples.
* `File.parts_of_ofImage`: a file that was opened with default settings, in its own terms.
-/

namespace SegY

namespace Scan

variable {image : Image} {binary : BinaryHeader} {s : Settings}

/-- A trace lies inside its record, and is a whole number of samples. -/
theorem trace_fits {pos : Nat} {header : TraceHeader} {t : Trace}
    (ht : trace? binary s pos header (recordLength image binary pos) = some t)
    (fits : recordEnd image binary pos ≤ image.size) :
    t.start + t.length ≤ image.size ∧ binary.format.width ∣ t.length := by
  have hwhole : binary.format.width ∣ recordLength image binary pos := Nat.dvd_mul_right ..
  unfold trace? at ht
  unfold recordEnd at fits
  split at ht
  · split at ht
    · next z _ =>
      cases ht
      refine ⟨?_, ?_⟩
      · show pos + _ + min _ _ ≤ _
        omega
      · rw [recordLength, Nat.mul_min_mul_left]
        exact Nat.dvd_mul_right ..
    · cases ht
      exact ⟨fits, hwhole⟩
  · cases ht

theorem Trail.traces_fit {pos k n stop : Nat} {traces : List Trace}
    (trail : Trail image binary s pos k n traces stop) :
    ∀ t ∈ traces, t.start + t.length ≤ image.size ∧ binary.format.width ∣ t.length := by
  induction trail with
  | here pos k => exact fun t ht => absurd ht List.not_mem_nil
  | record hk hh fits _ ih =>
      intro t ht
      rcases List.mem_append.mp ht with ht | ht
      · exact trace_fits (Option.mem_toList.mp ht) fits
      · exact ih t ht

/-- Each trace that a scan gives lies inside the file. -/
theorem traces_fit {first : Nat} {found : Scan} (h : scan image first binary s = .ok found) :
    ∀ t ∈ found.traces, t.start + t.length ≤ image.size ∧ binary.format.width ∣ t.length := by
  obtain ⟨trail, -⟩ := exists_trail_of_scan h
  exact trail.traces_fit

/-- A trace has no more samples than its record. -/
theorem length_trace?_le {pos : Nat} {header : TraceHeader} {t : Trace}
    (ht : trace? binary s pos header (recordLength image binary pos) = some t) :
    t.length ≤ binary.format.width * maxSamples := by
  have hmax : recordLength image binary pos ≤ binary.format.width * maxSamples :=
    Nat.mul_le_mul_left _ (recordSamples_le ..)
  unfold trace? at ht
  split at ht
  · split at ht <;> cases ht
    · exact Nat.le_trans (Nat.min_le_left ..) hmax
    · exact hmax
  · cases ht

theorem Trail.length_le {pos k n stop : Nat} {traces : List Trace}
    (trail : Trail image binary s pos k n traces stop) :
    ∀ t ∈ traces, t.length ≤ binary.format.width * maxSamples := by
  induction trail with
  | here pos k => exact fun t ht => absurd ht List.not_mem_nil
  | record hk hh fits _ ih =>
      intro t ht
      rcases List.mem_append.mp ht with ht | ht
      · exact length_trace?_le (Option.mem_toList.mp ht)
      · exact ih t ht

/-- The binary header of a scan says how the file is stored, as before. -/
theorem binary_of_scan {first : Nat} {found : Scan} (h : scan image first binary s = .ok found) :
    found.binary = cut binary s ∧ found.binary.format = binary.format ∧
      found.binary.order = binary.order := by
  obtain ⟨_, -, rfl⟩ := Except.map_eq_ok_iff.mp h
  refine ⟨rfl, ?_, ?_⟩ <;> (simp only [cut]; split <;> rfl)

end Scan

namespace File

variable {image : Image} {s : Settings}

/-- The position of the first trace header of a file with so many extended text headers. -/
def tracesStart (labelled : Bool) (count : Nat) : Nat :=
  extendedStart labelled + count * TextHeader.size

/-- Extended text headers fit into a file exactly if there is a place after them. -/
theorem extendedFitting_lt_iff {labelled : Bool} {count : Nat}
    (hlong : minimumSize labelled < image.size) :
    extendedFitting image labelled < count ↔ image.size < tracesStart labelled count := by
  have hstart : extendedStart labelled ≤ image.size := by
    rw [minimumSize] at hlong
    omega
  rw [extendedFitting, Nat.div_lt_iff_lt_mul (by decide), tracesStart]
  omega

/-- A label is read exactly if there is one. -/
theorem isSome_of_readLabel {labelled : Bool} {label : Option TapeLabel}
    (h : readLabel image labelled = .ok label) : label.isSome = labelled := by
  cases labelled with
  | false => cases h; rfl
  | true =>
      obtain ⟨l, -, rfl⟩ := Except.map_eq_ok_iff.mp h
      rfl

/-- What is opened if all stages go well. -/
theorem ofImage_eq_ok_iff {f : File} :
    ofImage s image = .ok f ↔ minimumSize (TapeLabel.isPresent image) < image.size ∧
      ∃ label binary found, readLabel image (TapeLabel.isPresent image) = .ok label ∧
        readBinary image (TapeLabel.isPresent image) s = .ok binary ∧
        tracesStart (TapeLabel.isPresent image) binary.extendedHeaders.toNat ≤ image.size ∧
        scan image (tracesStart (TapeLabel.isPresent image) binary.extendedHeaders.toNat) binary s =
          .ok found ∧
        f = {
          image, settings := s, label
          text := TextHeader.decode
            (image.slice (textStart (TapeLabel.isPresent image)) TextHeader.size)
          extended := readTexts image (extendedStart (TapeLabel.isPresent image))
            binary.extendedHeaders.toNat
          binary := found.binary, traces := found.traces, report := found.report } := by
  generalize hlabelled : TapeLabel.isPresent image = labelled
  simp only [ofImage, hlabelled]
  split
  · next hshort =>
    constructor
    · intro h
      cases h
    · rintro ⟨hlong, -⟩
      exact absurd hlong (Nat.not_lt.mpr hshort)
  · next hlong =>
    rw [Nat.not_le] at hlong
    have hfits : ∀ count, ¬ extendedFitting image labelled < count ↔
        tracesStart labelled count ≤ image.size := fun count => by
      rw [extendedFitting_lt_iff hlong, Nat.not_lt]
    simp only [Except.bind_eq_ok_iff, Except.mapError_eq_ok_iff, withTraces]
    constructor
    · rintro ⟨label, hlabel, binary, hbinary, h⟩
      split at h
      · cases h
      · next hcount =>
        obtain ⟨found, hfound, rfl⟩ := Except.map_eq_ok_iff.mp h
        exact ⟨hlong, label, binary, found, hlabel, hbinary, (hfits _).mp hcount, hfound, rfl⟩
    · rintro ⟨-, label, binary, found, hlabel, hbinary, hcount, hfound, rfl⟩
      refine ⟨label, hlabel, binary, hbinary, ?_⟩
      rw [if_neg ((hfits _).mpr hcount)]
      exact Except.map_eq_ok_iff.mpr ⟨found, hfound, rfl⟩

/-- Other settings with which the same binary header is read, and traces are found that differ as
`g` tells, open a file that differs as `g` tells, and fail alike. -/
theorem ofImage_eq_map {s' : Settings} {g : File → File}
    (hbinary : ∀ labelled, readBinary image labelled s' = readBinary image labelled s)
    (htraces : ∀ labelled label binary, withTraces image labelled s' label binary =
      (withTraces image labelled s label binary).map g) :
    ofImage s' image = (ofImage s image).map g := by
  rw [ofImage, ofImage, hbinary]
  split
  · rfl
  cases readLabel image (TapeLabel.isPresent image) with
  | error e => rfl
  | ok label =>
    cases readBinary image (TapeLabel.isPresent image) s with
    | error e => rfl
    | ok binary => exact htraces _ label binary

/-- Each trace lies inside the file, and is a whole number of samples. -/
def Sound (f : File) : Prop :=
  ∀ t ∈ f.traces, t.start + t.length ≤ f.image.size ∧ f.width ∣ t.length

/-- **The traces of an opened file lie inside of it.** -/
theorem sound_of_ofImage {f : File} (h : ofImage s image = .ok f) : f.Sound := by
  obtain ⟨-, label, binary, found, -, -, -, hfound, rfl⟩ := ofImage_eq_ok_iff.mp h
  intro t ht
  rw [width, (Scan.binary_of_scan hfound).2.1]
  exact Scan.traces_fit hfound t ht

/-- No trace of an opened file has more samples than 16 bits can count. -/
theorem samples_le_of_ofImage {f : File} (h : ofImage s image = .ok f) {t : Trace}
    (ht : t ∈ f.traces) : f.samples t ≤ maxSamples := by
  obtain ⟨-, label, binary, found, -, -, -, hfound, rfl⟩ := ofImage_eq_ok_iff.mp h
  obtain ⟨trail, -⟩ := Scan.exists_trail_of_scan hfound
  rw [samples, width, (Scan.binary_of_scan hfound).2.1]
  exact Nat.div_le_of_le_mul (trail.length_le t ht)

theorem trace_eq_ok_iff {f : File} {i : Nat} {t : Trace} :
    f.trace i = .ok t ↔ f.traces[i]? = some t := by
  rw [trace]
  cases f.traces[i]? <;> simp

/-- The trace of an index is one of the traces. -/
theorem mem_of_trace {f : File} {i : Nat} {t : Trace} (h : f.trace i = .ok t) : t ∈ f.traces :=
  List.mem_of_getElem? (trace_eq_ok_iff.mp h)

theorem settings_of_ofImage {f : File} (h : ofImage s image = .ok f) :
    f.settings = s ∧ f.image = image := by
  obtain ⟨-, _, _, _, -, -, -, -, rfl⟩ := ofImage_eq_ok_iff.mp h
  exact ⟨rfl, rfl⟩

/-- With default settings nothing of what was read is changed, so an opened file can be described in
its own terms. -/
theorem parts_of_ofImage {f : File} (h : ofImage {} image = .ok f) :
    minimumSize f.label.isSome < image.size ∧
      f.text = TextHeader.decode (image.slice (textStart f.label.isSome) TextHeader.size) ∧
      scan image (tracesStart f.label.isSome f.binary.extendedHeaders.toNat) f.binary {} =
        .ok ⟨f.traces, f.report, f.binary⟩ := by
  obtain ⟨hlong, label, binary, found, hlabel, -, -, hscan, rfl⟩ := ofImage_eq_ok_iff.mp h
  obtain rfl : found.binary = binary := (Scan.binary_of_scan hscan).1
  rw [← isSome_of_readLabel hlabel] at hlong hscan ⊢
  exact ⟨hlong, rfl, hscan⟩

end File

end SegY
