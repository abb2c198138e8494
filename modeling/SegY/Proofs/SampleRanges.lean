import SegY.Proofs.ReadRanges
import SegY.Proofs.StridedReading

/-!
# Reading samples — the bytes that are read

Samples are read of any range of a file, whether or not a trace of the file has it, and the numbers
that make up a range can be any 64-bit numbers.  What keeps a reader inside the file is one test,
that of where the range ends; and the end is a 64-bit number, so it can wrap.

* `SampleRequest`, `File.answer`: what can be asked of a range.
* `File.readingAnswer`: what is answered, with the ranges of the file that are read for it.
* `File.answer_inside_range`: a range that ends after the file is refused, exactly unless its end
  wraps to a place inside the file; and what is read of a range in the file lies inside the range.
* `File.answer_of_wrapped_end`: ranges that end after the file, and are read all the same.
-/

namespace SegY

/-- What can be asked of a range of a file. -/
inductive SampleRequest where
  /-- Every `step`-th sample, as floats. -/
  | samples
  /-- Every `step`-th sample, as they are stored. -/
  | bytes
  /-- A single sample, as a float. -/
  | point (n : Nat)
  /-- A single sample, as it is stored. -/
  | pointBytes (n : Nat)

namespace SampleRequest

/-- What an answer is. -/
@[reducible] def Answer : SampleRequest → Type
  | samples => List Float32Word
  | bytes => Bytes
  | point _ => Float32Word
  | pointBytes _ => Bytes

/-- The index of a single sample. -/
def index? : SampleRequest → Option Nat
  | samples | bytes => none
  | point n | pointBytes n => some n

end SampleRequest

namespace Reading

variable {α β ε : Type} {P : Nat × Nat → Prop}

/-- What follows a test that reads nothing, if the test does not fail. -/
def given (x : Except ε α) (f : α → Reading (Except ε β)) : Reading (Except ε β) :=
  andThen (pure x) f

@[simp] theorem value_given (x : Except ε α) (f : α → Reading (Except ε β)) :
    (given x f).value = x >>= fun a => (f a).value := value_andThen ..

theorem given_ok (a : α) (f : α → Reading (Except ε β)) : given (.ok a) f = f a := rfl

theorem given_error (e : ε) (f : α → Reading (Except ε β)) :
    given (.error e) f = pure (.error e) := rfl

theorem all_given {x : Except ε α} {f : α → Reading (Except ε β)}
    (h : ∀ a, x = .ok a → (f a).All P) : (given x f).All P :=
  (all_pure x).andThen h

end Reading

namespace File

open Reading

/-- What is answered when a range of a file is read. -/
def answer (f : File) (t : Trace) : (q : SampleRequest) → Except Error q.Answer
  | .samples => f.read t
  | .bytes => f.readBytes t
  | .point n => f.readPoint t n
  | .pointBytes n => f.readPointBytes t n

/-- Whether a single sample is asked for that the range does not have. -/
def IsPast (f : File) (t : Trace) (q : SampleRequest) : Prop :=
  ∃ n, q.index? = some n ∧ f.samples t ≤ n

/-- Whether a range ends after the file, and its end wraps to a place inside the file. -/
def WrapsInside (f : File) (t : Trace) : Prop :=
  sizeLimit ≤ t.start + t.length ∧ t.start + t.length ≤ sizeLimit + f.image.size

/-- Whether bytes lie in a range. -/
def Inside (t : Trace) (r : Nat × Nat) : Prop := t.start ≤ r.1 ∧ r.1 + r.2 ≤ t.start + t.length

/-! ### What is read -/

variable (f : File) (t : Trace)

/-- Reads so many pieces of a range, one every `stride` bytes. -/
def readingPieces (width stride count : Nat) : Reading (Except Error (List Bytes)) := do
  let piece (k : Nat) : Nat × Nat := (t.start + k * stride, min width (t.length - k * stride))
  let last := piece (count - 1)
  let found ← collect (List.range count) fun k => f.image.reading (piece k).1 (piece k).2
  if 0 < count ∧ f.image.size < last.1 + last.2 then
    return .error (.wrapped (.outside t.start t.length))
  else return .ok found

/-- Reads every `step`-th sample as a float. -/
def readingSamples : Reading (Except Error (List Float32Word)) :=
  given (f.checkRange t) fun _ => given (f.checkWhole t) fun _ =>
    given (f.binary.format.decoder.mapError .conversion) fun decode =>
      (·.map (List.map (decode f.binary.order))) <$>
        f.readingPieces t f.width (f.settings.step * f.width)
          (countEvery f.settings.step (f.samples t))

/-- Reads every `step`-th sample as it is stored.  A stride of zero leads to the first one again
and again. -/
def readingBytes : Reading (Except Error Bytes) :=
  given (f.checkRange t) fun _ =>
    if f.settings.step = 1 then (·.map List.flatten) <$> f.readingPieces t t.length t.length 1
    else if f.stride = 0 ∧ 0 < t.length then do
      let _ ← f.image.reading t.start (min f.width t.length)
      return .error (.wrapped .noProgress)
    else
      (·.map List.flatten) <$> f.readingPieces t f.width f.stride (countEvery f.stride t.length)

/-- Reads a single sample as it is stored. -/
def readingPointBytes (n : Nat) : Reading (Except Error Bytes) :=
  given (f.checkSample t n) fun _ => given (f.checkRange t) fun _ => do
    let start := t.start + n * f.width
    let b ← f.image.reading start f.width
    if f.image.size < start + f.width then return .error (.wrapped (.outside t.start t.length))
    else return .ok b

/-- Reads a single sample as a float. -/
def readingPoint (n : Nat) : Reading (Except Error Float32Word) :=
  (f.readingPointBytes t n).andThen fun b =>
    pure ((f.binary.format.decoder.mapError .conversion).map fun decode =>
      decode f.binary.order b)

/-- What is answered, with the ranges that are read for it. -/
def readingAnswer : (q : SampleRequest) → Reading (Except Error q.Answer)
  | .samples => f.readingSamples t
  | .bytes => f.readingBytes t
  | .point n => f.readingPoint t n
  | .pointBytes n => f.readingPointBytes t n

variable {f t}

theorem value_readingPieces (width stride count : Nat) :
    (f.readingPieces t width stride count).value = f.pieces t width stride count := by
  rw [readingPieces, pieces, value_bind, value_ite]
  rfl

theorem value_readingPointBytes (n : Nat) :
    (f.readingPointBytes t n).value = f.readPointBytes t n := by
  simp only [readingPointBytes, readPointBytes, value_given, value_bind, value_ite, value_pure,
    Reading.value_reading]
  rfl

/-- **What is read makes the answer.** -/
theorem value_readingAnswer (q : SampleRequest) :
    (f.readingAnswer t q).value = f.answer t q := by
  cases q with
  | samples =>
      simp only [readingAnswer, answer, readingSamples, read, value_given, value_map,
        value_readingPieces]
      rfl
  | bytes =>
      simp only [readingAnswer, answer, readingBytes, readBytes, value_given, value_map, value_ite,
        value_bind, value_pure, value_readingPieces]
      rfl
  | point n =>
      simp only [readingAnswer, answer, readingPoint, readPoint, value_andThen, value_pure,
        value_readingPointBytes]
      rfl
  | pointBytes n => exact value_readingPointBytes n

/-! ### Ranges that are refused -/

variable {q : SampleRequest}

/-- Nothing is read for a sample that a range does not have. -/
theorem readingAnswer_of_isPast {n : Nat} (hn : q.index? = some n) (h : f.samples t ≤ n) :
    f.readingAnswer t q = pure (.error (.index (.sample n (f.samples t)))) := by
  have hsample : f.checkSample t n = .error (.index (.sample n (f.samples t))) := by
    rw [checkSample, if_pos h]
  cases q with
  | samples | bytes => cases hn
  | point m =>
      cases hn
      rw [readingAnswer, readingPoint, readingPointBytes, hsample, given_error]
      rfl
  | pointBytes m =>
      cases hn
      rw [readingAnswer, readingPointBytes, hsample, given_error]

/-- Nothing is read of a range that ends after the file. -/
theorem readingAnswer_of_checkRange {e : Error} (h : f.checkRange t = .error e)
    (hpast : ¬ f.IsPast t q) : f.readingAnswer t q = pure (.error e) := by
  have hpoint : ∀ n, q.index? = some n → f.readingPointBytes t n = pure (.error e) := fun n hn => by
    have hsample : f.checkSample t n = .ok () := by
      rw [checkSample, if_neg fun hle => hpast ⟨n, hn, hle⟩]
    rw [readingPointBytes, hsample, given_ok, h, given_error]
  cases q with
  | samples => rw [readingAnswer, readingSamples, h, given_error]
  | bytes => rw [readingAnswer, readingBytes, h, given_error]
  | point n =>
      rw [readingAnswer, readingPoint, hpoint n rfl]
      rfl
  | pointBytes n => exact hpoint n rfl

/-- Nothing is wrong with a file but what the tests of a range find. -/
theorem answer_ne_malformed {e : StructureError} (hrange : f.checkRange t ≠ .error (.malformed e))
    (hwhole : f.checkWhole t ≠ .error (.malformed e)) :
    f.answer t q ≠ .error (.malformed e) := by
  have hpieces : ∀ width stride count,
      f.pieces t width stride count ≠ .error (.malformed e) := by
    intro width stride count
    rw [pieces]
    split <;> simp
  have hdecoder : f.binary.format.decoder.mapError Error.conversion ≠ .error (.malformed e) := by
    cases f.binary.format.decoder with
    | ok decode => exact Except.ok_ne_error
    | error e => simp
  have hpoint : ∀ n, f.readPointBytes t n ≠ .error (.malformed e) := by
    intro n
    refine Except.bind_ne_error ?_ fun _ => Except.bind_ne_error hrange fun _ => ?_
    · rw [checkSample]
      split <;> simp
    · dsimp only
      split
      · simp
      · exact Except.ok_ne_error
  cases q with
  | samples =>
      exact Except.bind_ne_error hrange fun _ => Except.bind_ne_error hwhole fun _ =>
        Except.bind_ne_error hdecoder fun _ =>
          Except.bind_ne_error (hpieces _ _ _) fun _ => Except.ok_ne_error
  | bytes =>
      refine Except.bind_ne_error hrange fun _ => ?_
      split
      · exact Except.bind_ne_error (hpieces _ _ _) fun _ => Except.ok_ne_error
      · split
        · simp
        · exact Except.bind_ne_error (hpieces _ _ _) fun _ => Except.ok_ne_error
  | point n => exact Except.bind_ne_error (hpoint n) fun _ =>
      Except.bind_ne_error hdecoder fun _ => Except.ok_ne_error
  | pointBytes n => exact hpoint n

/-- A range that is not refused is not said to end after the file. -/
theorem answer_ne_dataBeyondEnd (h : f.checkRange t = .ok ()) (position size : Nat) :
    f.answer t q ≠ .error (.malformed (.dataBeyondEnd position size)) := by
  refine answer_ne_malformed (h ▸ Except.ok_ne_error) ?_
  rw [checkWhole]
  split <;> simp

/-- Where the end of a range leads as a 64-bit number. -/
theorem dataEnd_le_iff (hstart : t.start < sizeLimit) (hlength : t.length < sizeLimit) :
    dataEnd t ≤ f.image.size ↔ t.start + t.length ≤ f.image.size ∨ f.WrapsInside t := by
  rw [dataEnd, WrapsInside]
  rcases Nat.lt_or_ge (t.start + t.length) sizeLimit with hlt | hge
  · rw [Nat.mod_eq_of_lt hlt]
    omega
  · rw [Nat.mod_eq_sub_mod hge, Nat.mod_eq_of_lt (by omega)]
    omega

/-! ### Ranges that are read -/

theorem mul_lt_of_lt_countEvery {step total k : Nat} (h : k < countEvery step total) :
    k * step < total := by
  rcases Nat.eq_zero_or_pos step with rfl | hstep
  · rw [countEvery, Nat.div_zero] at h
    omega
  · exact (lt_countEvery_iff hstep).mp h

/-- A sample of a range lies in the range. -/
theorem sample_inside {n : Nat} (h : n < f.samples t) : n * f.width + f.width ≤ t.length := by
  have hn := (Nat.le_div_iff_mul_le f.width_pos).mp (Nat.succ_le_of_lt h)
  rwa [Nat.succ_mul] at hn

theorem start_le_of_lt_countEvery {step k : Nat} (h : k < countEvery step (f.samples t)) :
    k * (step * f.width) ≤ t.length := by
  have hk := sample_inside (mul_lt_of_lt_countEvery h)
  rw [← Nat.mul_assoc]
  omega

theorem all_readingPieces {width stride count : Nat} (h : ∀ k < count, k * stride ≤ t.length) :
    (f.readingPieces t width stride count).All (Inside t) := by
  refine (all_collect fun k hk => all_reading ?_).bind ?_
  · have hk := h k (List.mem_range.mp hk)
    show t.start ≤ t.start + k * stride ∧
      t.start + k * stride + min width (t.length - k * stride) ≤ t.start + t.length
    omega
  · split <;> exact all_pure _

theorem all_readingPointBytes (n : Nat) : (f.readingPointBytes t n).All (Inside t) := by
  refine all_given fun _ hsample => all_given fun _ _ => (all_reading ?_).bind ?_
  · rw [checkSample] at hsample
    split at hsample
    · cases hsample
    · next hn =>
      have hfits := sample_inside (Nat.not_le.mp hn)
      exact ⟨by omega, by omega⟩
  · split <;> exact all_pure _

/-- What is read of a range lies inside of it. -/
theorem all_readingAnswer (q : SampleRequest) : (f.readingAnswer t q).All (Inside t) := by
  cases q with
  | samples =>
      refine all_given fun _ _ => all_given fun _ _ => all_given fun _ _ => ?_
      exact (all_readingPieces fun k hk => start_le_of_lt_countEvery hk).map _
  | bytes =>
      refine all_given fun _ _ => ?_
      split
      · refine (all_readingPieces fun k hk => ?_).map _
        rw [Nat.lt_one_iff.mp hk, Nat.zero_mul]
        exact Nat.zero_le _
      · split
        · exact (all_reading ⟨Nat.le_refl _, by omega⟩).bind (all_pure _)
        · exact (all_readingPieces fun k hk =>
            Nat.le_of_lt (mul_lt_of_lt_countEvery hk)).map _
  | point n => exact (all_readingPointBytes n).andThen fun _ _ => all_pure _
  | pointBytes n => exact all_readingPointBytes n

/-- Two files of one length that are read in the same way and have the same bytes in a range. -/
structure Agree (f g : File) (t : Trace) : Prop where
  settings : g.settings = f.settings
  binary : g.binary = f.binary
  size : g.image.size = f.image.size
  bytes : g.image.slice t.start t.length = f.image.slice t.start t.length

namespace Agree

variable {g : File} (h : Agree f g t)
include h

theorem width_eq : g.width = f.width := by rw [width, width, h.binary]

theorem samples_eq : g.samples t = f.samples t := by rw [samples, samples, h.width_eq]

theorem stride_eq : g.stride = f.stride := by rw [stride, stride, h.settings, h.width_eq]

theorem checkRange_eq : g.checkRange t = f.checkRange t := by rw [checkRange, checkRange, h.size]

theorem slice_eq {pos length : Nat} (hfits : pos + length ≤ t.length) :
    g.image.slice (t.start + pos) length = f.image.slice (t.start + pos) length := by
  rw [← Image.slice_slice hfits, h.bytes, Image.slice_slice hfits]

theorem pieces_eq {width stride count : Nat} (hle : ∀ k < count, k * stride ≤ t.length) :
    g.pieces t width stride count = f.pieces t width stride count := by
  have hpieces : ((List.range count).map fun k =>
      g.image.slice (t.start + k * stride) (min width (t.length - k * stride))) =
        (List.range count).map fun k =>
          f.image.slice (t.start + k * stride) (min width (t.length - k * stride)) :=
    List.map_congr_left fun k hk => by
      have hk := hle k (List.mem_range.mp hk)
      exact h.slice_eq (by omega)
  simp only [pieces, h.size, hpieces]

theorem readPointBytes_eq (n : Nat) : g.readPointBytes t n = f.readPointBytes t n := by
  simp only [readPointBytes, checkSample, h.samples_eq, h.checkRange_eq, h.width_eq, h.size]
  split
  · rfl
  · next hn => rw [h.slice_eq (sample_inside (Nat.not_le.mp hn))]

/-- What is answered depends on no byte outside the range. -/
theorem answer_eq (q : SampleRequest) : g.answer t q = f.answer t q := by
  cases q with
  | samples =>
      have hpieces : g.pieces t f.width (f.settings.step * f.width)
          (countEvery f.settings.step (f.samples t)) =
            f.pieces t f.width (f.settings.step * f.width)
              (countEvery f.settings.step (f.samples t)) :=
        h.pieces_eq fun k hk => start_le_of_lt_countEvery hk
      simp only [answer, read, h.checkRange_eq, checkWhole, h.width_eq, h.binary, h.settings,
        h.samples_eq, hpieces]
  | bytes =>
      have hwhole : g.pieces t t.length t.length 1 = f.pieces t t.length t.length 1 :=
        h.pieces_eq fun k hk => by
          rw [Nat.lt_one_iff.mp hk, Nat.zero_mul]
          exact Nat.zero_le _
      have hpieces : g.pieces t f.width f.stride (countEvery f.stride t.length) =
          f.pieces t f.width f.stride (countEvery f.stride t.length) :=
        h.pieces_eq fun k hk => Nat.le_of_lt (mul_lt_of_lt_countEvery hk)
      simp only [answer, readBytes, h.checkRange_eq, h.settings, h.stride_eq, h.width_eq, hwhole,
        hpieces]
  | point n => simp only [answer, readPoint, h.readPointBytes_eq, h.binary]
  | pointBytes n => exact h.readPointBytes_eq n

end Agree

/-- **Samples are read inside their range, unless its end wraps.**  Take any range of a file, of
any 64-bit numbers, and any request.  A sample that the range does not have is refused.  Of a
range in the file only bytes of the range are read, which are all in the file, and no other byte
makes a difference.  A range that ends after the file is refused before anything is read, exactly
unless its end, as a 64-bit number, leads back into the file. -/
theorem answer_inside_range (f : File) {t : Trace} (hstart : t.start < sizeLimit)
    (hlength : t.length < sizeLimit) (q : SampleRequest) :
    (f.readingAnswer t q).value = f.answer t q ∧
      (∀ n, q.index? = some n → f.samples t ≤ n →
        f.answer t q = .error (.index (.sample n (f.samples t))) ∧
          (f.readingAnswer t q).ranges = []) ∧
      (t.start + t.length ≤ f.image.size →
        (f.readingAnswer t q).All (Inside t) ∧ (f.readingAnswer t q).Within f.image.size ∧
          ∀ g, Agree f g t → g.answer t q = f.answer t q) ∧
      (f.image.size < t.start + t.length → ¬ f.IsPast t q →
        (f.answer t q = .error (.malformed (.dataBeyondEnd (dataEnd t) f.image.size)) ∧
          (f.readingAnswer t q).ranges = [] ↔ ¬ f.WrapsInside t)) := by
  refine ⟨value_readingAnswer q, fun n hn hpast => ?_, fun hend => ?_, fun hlong hpast => ?_⟩
  · have h := readingAnswer_of_isPast hn hpast
    exact ⟨by rw [← value_readingAnswer, h, value_pure], by rw [h]; rfl⟩
  · have hinside := all_readingAnswer (f := f) (t := t) q
    exact ⟨hinside, fun r hr => Nat.le_trans (hinside r hr).2 hend, fun g h => h.answer_eq q⟩
  · have hle := dataEnd_le_iff (f := f) hstart hlength
    rw [or_iff_right (Nat.not_le.mpr hlong)] at hle
    constructor
    · rintro ⟨hrefused, -⟩ hwraps
      have hrange : f.checkRange t = .ok () := by
        rw [checkRange, if_neg (Nat.not_lt.mpr (hle.mpr hwraps))]
      exact answer_ne_dataBeyondEnd hrange _ _ hrefused
    · intro hwraps
      have hrange : f.checkRange t =
          .error (.malformed (.dataBeyondEnd (dataEnd t) f.image.size)) := by
        rw [checkRange, if_pos (Nat.not_le.mp (mt hle.mp hwraps))]
      have h := readingAnswer_of_checkRange hrange hpast
      exact ⟨by rw [← value_readingAnswer, h, value_pure], by rw [h]; rfl⟩

end File

namespace Reader

/-- The samples of a trace are read, and none after them; a range that ends four bytes after the
file is refused. -/
theorem answer_inside_range_sevenEightNine :
    ∃ r, ofBytes {} sevenEightNine = .ok r ∧
      let f := r.file {}
      let trace : Trace := ⟨TraceHeader.blank, 3840, 6⟩
      let long : Trace := ⟨TraceHeader.blank, 3840, 10⟩
      (f.readingAnswer trace .bytes).All (File.Inside trace) ∧
        (f.readingAnswer trace .bytes).Within 3846 ∧
        f.answer trace (.point 3) = .error (.index (.sample 3 3)) ∧
        f.answer long .samples = .error (.malformed (.dataBeyondEnd 3850 3846)) ∧
        (f.readingAnswer long .samples).ranges = [] := by
  obtain ⟨f, -, hopen, -, hwidth, -, -, -, hsize, -⟩ := ofBytes_sevenEightNine 1
  refine ⟨_, hopen, ?_⟩
  intro g trace long
  have hsamples : f.samples trace = 3 := by
    rw [File.samples, hwidth]
    exact (rfl : 6 / 2 = 3)
  obtain ⟨-, hpast, -⟩ := File.answer_inside_range f (t := trace) (by decide) (by decide) (.point 3)
  obtain ⟨-, -, hread, -⟩ := File.answer_inside_range f (t := trace) (by decide) (by decide) .bytes
  obtain ⟨-, -, -, hrefused⟩ :=
    File.answer_inside_range f (t := long) (by decide) (by decide) .samples
  obtain ⟨hinside, hwithin, -⟩ := hread (by rw [hsize]; decide)
  have hlong : f.image.size < long.start + long.length := by rw [hsize]; decide
  have hwraps : ¬ f.WrapsInside long := fun h => absurd h.1 (by decide)
  have hall : ¬ f.IsPast long .samples := by
    rintro ⟨n, hn, -⟩
    cases hn
  obtain ⟨herror, hranges⟩ := (hrefused hlong hall).mpr hwraps
  rw [hsize] at hwithin herror
  have hindex := (hpast 3 rfl (Nat.le_of_eq hsamples)).1
  rw [hsamples] at hindex
  exact ⟨hinside, hwithin, hindex, herror, hranges⟩

/-- **Ranges that end after the file, and are read all the same.**  The first begins in the file
and its end wraps to zero: it is as long as nearly all there is, but two bytes of it are given.
The second lies in front of the file in the same sense, and so do the bytes that are read. -/
theorem answer_of_wrapped_end :
    ∃ r, ofBytes {} sevenEightNine = .ok r ∧ r.IsOpen ∧
      let f := r.file {}
      let around : Trace := ⟨TraceHeader.blank, 2048, 2 ^ 64 - 2048⟩
      let before : Trace := ⟨TraceHeader.blank, 2 ^ 64 - 2, 2⟩
      f.image.size = 3846 ∧ around.start + around.length = 2 ^ 64 ∧
        f.answer around (.pointBytes 0) = .ok [0x43, 0x43] ∧
        before.start + before.length = 2 ^ 64 ∧
        (f.readingAnswer before (.pointBytes 0)).ranges = [(2 ^ 64 - 2, 2)] := by
  obtain ⟨f, -, hopen, -, hwidth, -, -, -, hsize, -⟩ := ofBytes_sevenEightNine 1
  have himage : f.image = sevenEightNine.toArray := by
    obtain ⟨f', hf', he⟩ := Except.map_eq_ok_iff.mp hopen
    cases he
    exact (File.settings_of_ofImage hf').2
  have htext : f.image.slice 2048 2 = [0x43, 0x43] := by
    have hfits : 2048 + 2 ≤ (List.replicate TextHeader.size (0x43 : UInt8)).length := by
      rw [List.length_replicate]
      decide
    rw [himage, Image.slice_eq, sevenEightNine, List.toList_toArray,
      Bytes.slice_append_of_fits hfits, Bytes.slice, List.drop_replicate, List.take_replicate]
    rfl
  refine ⟨_, hopen, .ofBytes .default hopen, ?_⟩
  intro g around before
  have hsample : ∀ t : Trace, 2 ≤ t.length → f.checkSample t 0 = .ok () := fun t ht => by
    rw [File.checkSample, File.samples, hwidth, if_neg (by omega)]
  have hrange : ∀ t : Trace, File.dataEnd t = 0 → f.checkRange t = .ok () := fun t ht => by
    rw [File.checkRange, ht, if_neg (Nat.not_lt_zero _)]
  refine ⟨hsize, (by decide : 2048 + (2 ^ 64 - 2048) = 2 ^ 64), ?_,
    (by decide : 2 ^ 64 - 2 + 2 = 2 ^ 64), ?_⟩
  · show f.readPointBytes around 0 = _
    rw [File.readPointBytes, hsample around (by decide), hrange around (by decide)]
    simp only [hwidth, hsize, bind, Except.bind]
    rw [if_neg (by decide)]
    exact congrArg Except.ok htext
  · show (f.readingPointBytes before 0).ranges = _
    rw [File.readingPointBytes, hsample before (by decide), hrange before (by decide),
      Reading.given_ok, Reading.given_ok, hwidth]
    show [(2 ^ 64 - 2, 2)] ++ Reading.ranges (if _ then _ else _) = _
    split <;> rfl

end Reader

end SegY
