import SegY.Proofs.FileCodec
import SegY.Proofs.ReachableSettings
import SegY.Proofs.ReadAgreement
import SegY.Proofs.ScanOutcome

/-!
# Opening a file — what can be wrong with it

Any bytes are a file that can be opened, or have a fault.  The faults are tested for in the order
of the file (`File.Fault.all`), and the first that there is decides.

* `TapeLabel.SpellsNumber`: what the block size of a label has to be.
* `Scan.failsBy_scan`: the two faults of a scan.
* `File.failsBy_firstFault`: opening fails by the first fault, and reads nothing outside the file.
-/

namespace SegY

/-! ### The number of a tape label -/

namespace TapeLabel

/-- Decimal digits, with NULs and white space on either side. -/
def SpellsNumber (b : Bytes) : Prop :=
  ∃ before digits after, b = before ++ (digits ++ after) ∧ before.all isBlank = true ∧
    after.all isBlank = true ∧ digits ≠ [] ∧ digits.all isDigit = true

/-- What is cut off are blanks. -/
theorem exists_trim (b : Bytes) : ∃ before after, b = before ++ (trim b ++ after) ∧
    before.all isBlank = true ∧ after.all isBlank = true := by
  have hfront := List.takeWhile_append_dropWhile (p := isBlank) (l := b)
  have hback := List.takeWhile_append_dropWhile (p := isBlank) (l := (b.dropWhile isBlank).reverse)
  refine ⟨b.takeWhile isBlank, ((b.dropWhile isBlank).reverse.takeWhile isBlank).reverse, ?_, ?_,
    ?_⟩
  · rw [trim, ← List.reverse_append, hback, List.reverse_reverse, hfront]
  · exact List.all_takeWhile
  · rw [List.all_reverse]
    exact List.all_takeWhile

theorem spellsNumber_iff {b : Bytes} :
    SpellsNumber b ↔ trim b ≠ [] ∧ (trim b).all isDigit = true := by
  constructor
  · rintro ⟨before, digits, after, rfl, hbefore, hafter, hne, hdigits⟩
    rw [trim_of_parts hbefore hafter hdigits]
    exact ⟨hne, hdigits⟩
  · rintro ⟨hne, hdigits⟩
    obtain ⟨before, after, hb, hbefore, hafter⟩ := exists_trim b
    exact ⟨before, trim b, after, hb, hbefore, hafter, hne, hdigits⟩

/-- A label cannot be read exactly if its block size is no number. -/
theorem ofBytes_eq_error_iff {b : Bytes} {e : HeaderError} :
    ofBytes b = .error e ↔ ¬ SpellsNumber (Bytes.slice b blockSizeStart blockSizeWidth) ∧
      e = .blockSizeText (trim (Bytes.slice b blockSizeStart blockSizeWidth)) := by
  rw [spellsNumber_iff, ofBytes]
  generalize trim (Bytes.slice b blockSizeStart blockSizeWidth) = digits
  have hrefused : (digits.isEmpty || !digits.all isDigit) = true ↔
      ¬ (digits ≠ [] ∧ digits.all isDigit = true) := by
    rw [not_and_or, not_not, Bool.or_eq_true, List.isEmpty_iff, Bool.not_eq_true',
      Bool.not_eq_true]
  rw [← hrefused]
  split
  · next h => simp only [h, true_and, Except.error.injEq, eq_comm]
  · next h => simp only [h, false_and, reduceCtorEq]

/-- So many digits spell a number below this power of ten. -/
theorem ofDigits_lt {b : Bytes} (h : b.all isDigit = true) : ofDigits b < 10 ^ b.length := by
  have general : ∀ n,
      b.foldl (fun n c => 10 * n + (c.toNat - 0x30)) n < (n + 1) * 10 ^ b.length := by
    induction b with
    | nil => intro n; simp
    | cons c rest ih =>
        intro n
        rw [List.all_cons, Bool.and_eq_true] at h
        have hc : c.toNat - 0x30 ≤ 9 := by
          have hd := h.1
          simp only [isDigit, Bool.and_eq_true, decide_eq_true_eq, UInt8.le_iff_toNat_le] at hd
          have : (0x39 : UInt8).toNat = 57 := rfl
          omega
        calc (c :: rest).foldl (fun n c => 10 * n + (c.toNat - 0x30)) n
            < (10 * n + (c.toNat - 0x30) + 1) * 10 ^ rest.length := ih h.2 _
          _ ≤ (10 * (n + 1)) * 10 ^ rest.length := Nat.mul_le_mul_right _ (by omega)
          _ = (n + 1) * 10 ^ (c :: rest).length := by
            rw [List.length_cons, Nat.pow_succ, Nat.mul_comm 10 (n + 1), Nat.mul_assoc,
              Nat.mul_comm 10]
  simpa [ofDigits] using general 0

theorem length_trim_le (b : Bytes) : (trim b).length ≤ b.length := by
  obtain ⟨before, after, hparts, -, -⟩ := exists_trim b
  have hlength := congrArg List.length hparts
  simp only [List.length_append] at hlength
  omega

/-- The number of a block size is one that can be written. -/
theorem ofDigits_trim_lt_limit {b : Bytes} (hb : b.length ≤ blockSizeWidth) (h : SpellsNumber b) :
    ofDigits (trim b) < blockSizeLimit := by
  calc ofDigits (trim b) < 10 ^ (trim b).length := ofDigits_lt (spellsNumber_iff.mp h).2
    _ ≤ 10 ^ blockSizeWidth :=
      Nat.pow_le_pow_right (by decide) (Nat.le_trans (length_trim_le b) hb)
    _ = blockSizeLimit := rfl

/-- The number of a block size is a 64-bit number. -/
theorem ofDigits_trim_lt {b : Bytes} (hb : b.length ≤ blockSizeWidth) (h : SpellsNumber b) :
    ofDigits (trim b) < UInt64.size :=
  Nat.lt_trans (ofDigits_trim_lt_limit hb h) (by decide)

/-- The block size of a label that was read is a number. -/
theorem spellsNumber_of_ofBytes {b : Bytes} {l : TapeLabel} (h : ofBytes b = .ok l) :
    SpellsNumber (Bytes.slice b blockSizeStart blockSizeWidth) := by
  by_contra hno
  rw [ofBytes_eq_error_iff.mpr ⟨hno, rfl⟩] at h
  cases h

theorem maxBlockSize_of_ofBytes {b : Bytes} {l : TapeLabel} (h : ofBytes b = .ok l) :
    l.maxBlockSize.toNat = ofDigits (trim (Bytes.slice b blockSizeStart blockSizeWidth)) := by
  have hlt := ofDigits_trim_lt (Bytes.slice_length_le ..) (spellsNumber_of_ofBytes h)
  rw [ofBytes] at h
  split at h
  · cases h
  · cases h
    rw [UInt64.toNat_ofNat']
    exact Nat.mod_eq_of_lt hlt

end TapeLabel

/-! ### The faults of a scan -/

namespace Scan

variable {image : Image} {binary : BinaryHeader} {s : Settings}

/-- Record `k` of a scan from `first` on has a header that can be read, and is all there. -/
def Whole (image : Image) (first : Nat) (binary : BinaryHeader) (s : Settings) (k : Nat) : Prop :=
  (∃ header, headerAt image binary s (recordStart image binary first k) k = .ok header) ∧
    recordStart image binary first (k + 1) ≤ image.size

/-- In a file of fixed length the first record is all there, but its header cannot be read. -/
def FirstHeaderFault (image : Image) (first : Nat) (binary : BinaryHeader) (s : Settings)
    (e : Error) : Prop :=
  binary.fixedLength = true ∧ recordEnd image binary first ≤ image.size ∧
    ∃ c, headerAt image binary s first 0 = .error c ∧ e = .conversion c

/-- In a file whose traces differ in length, the header of a record can be read, but not all of its
samples are there.  The records before it are whole, and not as many as the settings allow. -/
def IncompleteTraceFault (image : Image) (first : Nat) (binary : BinaryHeader) (s : Settings)
    (e : Error) : Prop :=
  binary.fixedLength = false ∧ ∃ k < s.maxTraceCount, (∀ j < k, Whole image first binary s j) ∧
    let pos := recordStart image binary first k
    (∃ header, headerAt image binary s pos k = .ok header) ∧
      pos + HeaderKind.trace.length ≤ image.size ∧ image.size < recordEnd image binary pos ∧
      e = .malformed (.incompleteTrace k pos
        (HeaderKind.trace.length + recordLength image binary pos) (image.size - pos))

/-- A scan goes on only at a record that is whole. -/
theorem whole_of_not_ends {pos k : Nat} (h : ∀ r, ¬ Ends image binary s pos k r) :
    (∃ header, headerAt image binary s pos k = .ok header) ∧
      recordEnd image binary pos ≤ image.size := by
  cases hstep : step image binary s pos k with
  | record header length fits =>
      obtain ⟨-, hh, rfl⟩ := step_eq_record_iff.mp hstep
      exact ⟨⟨header, hh⟩, fits⟩
  | stop reason message => exact absurd (outcome?_step_eq_some_iff.mp (by rw [hstep]; rfl)) (h _)
  | fault e => exact absurd (outcome?_step_eq_some_iff.mp (by rw [hstep]; rfl)) (h _)

/-- A scan fails exactly if its first end is a fault. -/
theorem scan_eq_error_iff {first : Nat} {e : Error} :
    scan image first binary s = .error e ↔ ∃ k, FirstEnd image first binary s k (.error e) := by
  obtain ⟨k, r, hfirst, hscan⟩ := exists_firstEnd image first binary s
  constructor
  · intro h
    rw [h] at hscan
    subst hscan
    exact ⟨k, hfirst⟩
  · rintro ⟨k', h'⟩
    rw [(hfirst.unique h').2] at hscan
    cases hfound : scan image first binary s with
    | ok found => rw [hfound] at hscan; cases hscan
    | error e' => rw [hfound] at hscan; cases hscan; rfl

/-- **The faults of a scan.** -/
theorem failsBy_scan (hmax : 0 < s.maxTraceCount) (first : Nat) :
    (scan image first binary s).FailsBy
      [FirstHeaderFault image first binary s, IncompleteTraceFault image first binary s] := by
  intro e
  rw [scan_eq_error_iff, Except.firstOf_cons_iff, Except.firstOf_singleton_iff]
  constructor
  · rintro ⟨k, h⟩
    have hbefore : ∀ j < k, Whole image first binary s j := fun j hj =>
      whole_of_not_ends (h.before j hj)
    cases h.ends with
    | firstHeader mode fits more unreadable zero =>
        subst zero
        exact .inl ⟨mode, fits, _, unreadable, rfl⟩
    | incomplete mode more fits readable short =>
        refine .inr ⟨fun e' h' => ?_, mode, k, more, hbefore, ⟨_, readable⟩, fits, short, rfl⟩
        rw [h'.1] at mode
        cases mode
  · rintro (⟨mode, fits, c, unreadable, rfl⟩ |
      ⟨-, mode, k, hk, hbefore, ⟨header, readable⟩, fits, short, rfl⟩)
    · exact ⟨0, .firstHeader mode fits hmax unreadable rfl,
        fun j hj => absurd hj (Nat.not_lt_zero j)⟩
    · refine ⟨k, .incomplete mode hk fits readable short, fun j hj r => ?_⟩
      obtain ⟨⟨header', hh⟩, hfits⟩ := hbefore j hj
      exact not_ends_of_record (Nat.lt_trans hj hk) hh hfits r

end Scan

/-! ### The faults of a file -/

namespace File

/-- What can be wrong with a file. -/
inductive Fault where
  | tooShort
  | blockSize
  | sampleFormat
  | fixedLength
  | extendedHeaders
  | firstHeader
  | incompleteTrace
  deriving DecidableEq, Repr

/-- All faults, in the order in which they are tested for. -/
def Fault.all : List Fault :=
  [tooShort, blockSize, sampleFormat, fixedLength, extendedHeaders, firstHeader, incompleteTrace]

/-- The length of the tape label, if there is one. -/
def labelLength (image : Image) : Nat := if TapeLabel.isPresent image then 128 else 0

/-- The bytes of the binary header. -/
def binaryBytes (image : Image) : Bytes := image.slice (labelLength image + 3200) 400

/-- A 16-bit number of the binary header, in the byte order of the settings or of the marker. -/
def binaryNumber (s : Settings) (image : Image) (start : Nat) : Nat :=
  (s.endianness.getD (BinaryHeader.detectOrder (binaryBytes image))).load
    (Bytes.slice (binaryBytes image) start 2)

/-- A test of what follows the binary header, if that can be read. -/
def WithBinary (s : Settings) (image : Image) (test : BinaryHeader → Prop) : Prop :=
  ∃ binary, readBinary image (TapeLabel.isPresent image) s = .ok binary ∧ test binary

/-- The position of the first trace header. -/
def firstTrace (image : Image) (binary : BinaryHeader) : Nat :=
  labelLength image + 3600 + binary.extendedHeaders.toNat * 3200

theorem Fault.mem_all (fault : Fault) : fault ∈ all := by
  cases fault <;> decide

/-- What is said of a file that has the fault. -/
def Fault.Says (s : Settings) (image : Image) (e : Error) : Fault → Prop
  | tooShort => image.size ≤ 3840 + labelLength image ∧
      e = .malformed (.fileTooShort image.size (3840 + labelLength image))
  | blockSize => TapeLabel.isPresent image = true ∧
      ¬ TapeLabel.SpellsNumber (image.slice 19 10) ∧
      e = .header (.blockSizeText (TapeLabel.trim (image.slice 19 10)))
  | sampleFormat => s.format = none ∧
      (∀ f : SampleFormat, f.code ≠ binaryNumber s image 24) ∧
      e = .unknownCode (.sampleFormat (binaryNumber s image 24))
  | fixedLength => binaryNumber s image 302 ≠ 0 ∧ binaryNumber s image 302 ≠ 1 ∧
      e = .unknownCode (.fixedLength (binaryNumber s image 302))
  | extendedHeaders => WithBinary s image fun binary =>
      let fitting := (image.size - (labelLength image + 3600)) / 3200
      fitting < binary.extendedHeaders.toNat ∧
        e = .malformed (.extendedHeaders binary.extendedHeaders.toNat fitting)
  | firstHeader => WithBinary s image fun binary =>
      Scan.FirstHeaderFault image (firstTrace image binary) binary s e
  | incompleteTrace => WithBinary s image fun binary =>
      Scan.IncompleteTraceFault image (firstTrace image binary) binary s e

/-- The tests for these faults. -/
def tests (s : Settings) (image : Image) (faults : List Fault) : List (Error → Prop) :=
  faults.map fun fault e => fault.Says s image e

section Stages

variable {s : Settings} {image : Image}

theorem minimumSize_eq :
    minimumSize (TapeLabel.isPresent image) = 3840 + labelLength image := by
  rw [minimumSize, extendedStart, binaryStart, textStart, labelLength]
  simp only [HeaderKind.length, TextHeader.size]
  omega

theorem extendedStart_eq :
    extendedStart (TapeLabel.isPresent image) = labelLength image + 3600 := by
  rw [extendedStart, binaryStart, textStart, labelLength]
  simp only [HeaderKind.length, TextHeader.size]

theorem failsBy_readLabel :
    (readLabel image (TapeLabel.isPresent image)).FailsBy (tests s image [.blockSize]) := by
  refine Except.failsBy_singleton_iff.mpr fun e => ?_
  have hfield : Bytes.slice (image.slice 0 HeaderKind.label.length) TapeLabel.blockSizeStart
      TapeLabel.blockSizeWidth = image.slice 19 10 := Image.slice_slice (by decide)
  show _ ↔ TapeLabel.isPresent image = true ∧ ¬ TapeLabel.SpellsNumber (image.slice 19 10) ∧ _
  rw [readLabel]
  cases TapeLabel.isPresent image with
  | false => simp
  | true =>
      have hlabel := fun e =>
        TapeLabel.ofBytes_eq_error_iff (b := image.slice 0 HeaderKind.label.length) (e := e)
      rw [hfield] at hlabel
      have h := (Except.failsBy_mapError hlabel Error.header).map some
      simpa only [if_true, true_and] using Except.failsBy_singleton_iff.mp h e

theorem failsBy_readBinary :
    ((readBinary image (TapeLabel.isPresent image) s).mapError .unknownCode).FailsBy
      (tests s image [.sampleFormat, .fixedLength]) :=
  BinaryHeader.failsBy_ofBytes s (binaryBytes image)

theorem failsBy_withTraces (hmax : 0 < s.maxTraceCount) (label : Option TapeLabel)
    {binary : BinaryHeader}
    (hbinary : readBinary image (TapeLabel.isPresent image) s = .ok binary) :
    (withTraces image (TapeLabel.isPresent image) s label binary).FailsBy
      (tests s image [.extendedHeaders, .firstHeader, .incompleteTrace]) := by
  have htest : ∀ test : Error → BinaryHeader → Prop,
      (fun e => WithBinary s image (test e)) = fun e => test e binary := fun test => by
    funext e
    simp [WithBinary, hbinary]
  show Except.FailsBy _ [fun e => WithBinary s image fun binary => _,
    fun e => WithBinary s image fun binary => _, fun e => WithBinary s image fun binary => _]
  rw [htest, htest, htest, withTraces, extendedFitting, extendedStart_eq]
  exact Except.failsBy_ite _ _ fun _ => (Scan.failsBy_scan hmax _).map _

/-- **Opening fails by the first fault of a file.**  For all bytes and all settings that can be
made: a file cannot be opened exactly if it has a fault, and then the first of its faults decides
what is said.  Nothing outside the file is read for it, and nothing else than the ranges that are
kept: with other bytes elsewhere it is opened alike.  Digits with blanks around them, in the ten
bytes that a block size has, are a 64-bit number, which is that of the label. -/
theorem failsBy_firstFault {s : Settings} (hs : s.Reachable) (image : Image) :
    (ofImage s image).FailsBy (tests s image Fault.all) ∧
      ((∃ f, ofImage s image = .ok f) ↔ ∀ fault e, ¬ Fault.Says s image e fault) ∧
      (reading s image).value = ofImage s image ∧ (reading s image).Within image.size ∧
      (∀ other : Image, other.size = image.size → image.AgreesOn other (reading s image).ranges →
        ofImage s other = (ofImage s image).map fun f => { f with image := other }) ∧
      (TapeLabel.SpellsNumber (image.slice 19 10) →
        TapeLabel.ofDigits (TapeLabel.trim (image.slice 19 10)) < UInt64.size) ∧
      (∀ f l, ofImage s image = .ok f → f.label = some l → l.maxBlockSize.toNat =
        TapeLabel.ofDigits (TapeLabel.trim (image.slice 19 10))) := by
  have hfails : (ofImage s image).FailsBy (tests s image Fault.all) := by
    rw [ofImage, minimumSize_eq]
    refine Except.failsBy_ite _ _ fun _ => ?_
    refine failsBy_readLabel.bind fun label _ => failsBy_readBinary.bind fun binary hbinary => ?_
    exact failsBy_withTraces hs.valid.maxTraceCount_pos label (Except.mapError_eq_ok_iff.mp hbinary)
  refine ⟨hfails, ?_, value_reading hs.byte_le image, within_reading hs.byte_le image,
    fun other hsize hagree => (ofImage_of_agreesOn hsize hs.byte_le hagree).2, ?_, ?_⟩
  · rw [hfails.exists_ok_iff]
    constructor
    · intro h fault
      exact h _ (List.mem_map_of_mem fault.mem_all)
    · intro h test htest
      obtain ⟨fault, -, rfl⟩ := List.mem_map.mp htest
      exact h fault
  · refine TapeLabel.ofDigits_trim_lt ?_
    rw [Image.slice_eq]
    exact Bytes.slice_length_le ..
  · intro f l hf hl
    obtain ⟨-, label, binary, found, hlabel, -, -, -, rfl⟩ := ofImage_eq_ok_iff.mp hf
    have hl' : label = some l := hl
    subst hl'
    rw [readLabel] at hlabel
    split at hlabel
    · obtain ⟨l', hl', he⟩ := Except.map_eq_ok_iff.mp hlabel
      cases he
      have h := TapeLabel.maxBlockSize_of_ofBytes (Except.mapError_eq_ok_iff.mp hl')
      rwa [Image.slice_slice (by decide)] at h
    · cases hlabel

end Stages

/-- Just enough zeros for the headers of a file. -/
def zeros : Image := (List.replicate 3841 0).toArray

/-- The zeros are long enough and have no label, but zero is no sample format.  So it is with all
files that have zeros where these are read. -/
theorem failsBy_firstFault_zeros :
    ofImage {} zeros = .error (.unknownCode (.sampleFormat 0)) ∧
      (reading {} zeros).Within zeros.size ∧
      ∀ other : Image, other.size = 3841 → zeros.AgreesOn other (reading {} zeros).ranges →
        ofImage {} other = .error (.unknownCode (.sampleFormat 0)) := by
  have hslice : ∀ {start length}, start + length ≤ 3841 →
      Image.slice zeros start length = List.replicate length 0 := fun hfits => by
    rw [Image.slice_eq, zeros, Bytes.slice, List.drop_replicate, List.take_replicate,
      Nat.min_eq_left (by omega)]
  have hsize : zeros.size = 3841 := by rw [zeros, List.size_toArray, List.length_replicate]
  have hbyte : ∀ {i : Nat}, i < 3841 → zeros[i]? = some 0 := fun hi => by
    rw [zeros, List.getElem?_toArray, List.getElem?_replicate, if_pos hi]
  have hlabelled : TapeLabel.isPresent zeros = false := by
    rw [TapeLabel.isPresent, hbyte (by decide), hbyte (by decide)]
    decide +kernel
  have hnumber : binaryNumber {} zeros 24 = 0 := by
    rw [binaryNumber, binaryBytes, labelLength, hlabelled, hslice (by decide)]
    decide +kernel
  obtain ⟨hfails, -, -, hwithin, hdepends, -⟩ := failsBy_firstFault .default zeros
  have hzeros : ofImage {} zeros = .error (.unknownCode (.sampleFormat 0)) := by
    refine (hfails _).mpr (.later ?_ (.later ?_ (.here ?_)))
    · rintro e ⟨hshort, -⟩
      rw [hsize, labelLength, hlabelled] at hshort
      exact absurd hshort (by decide)
    · rintro e ⟨hlabel, -⟩
      rw [hlabelled] at hlabel
      cases hlabel
    · show _ ∧ (∀ f : SampleFormat, f.code ≠ binaryNumber {} zeros 24) ∧ _
      rw [hnumber]
      exact ⟨rfl, fun f => by cases f <;> decide, rfl⟩
  refine ⟨hzeros, hwithin, fun other hother hagree => ?_⟩
  rw [hdepends other (hother.trans hsize.symm) hagree, hzeros]
  rfl

end File

end SegY
