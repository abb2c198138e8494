import SegY.Proofs.Conversion
import SegY.Proofs.WrittenFiles

/-!
# Lossless samples

A format that is listed as lossless for a sample type stores samples as values of a type that has
all numbers of it (`covers_of_lossless`).  So nothing that is written losslessly fails or is
changed, whatever the values are, and the file holds the same numbers that the trace had.

* `SampleType.losslessEncoder_kept`: a lossless encoder keeps every sample.
* `Session.run_keeps_lossless`: the traces that a run appends losslessly are in the file as they
  were given.
-/

namespace SegY

/-! ### The formats of a type -/

namespace SampleType

/-- **The table of lossless formats is sound.** -/
theorem covers_of_lossless {t : SampleType} {f : SampleFormat} (h : t.isLossless f = true) :
    ∃ target, f.storage = .native target ∧ target.Covers t := by
  have table : ∀ t ∈ all, ∀ f ∈ losslessFormats t, ∃ target ∈ all,
      f.storage = .native target ∧ target.Covers t := by
    decide
  obtain ⟨target, -, hstorage, hcovers⟩ := table t t.mem_all f (List.contains_iff_mem.mp h)
  exact ⟨target, hstorage, hcovers⟩

theorem losslessEncoder_eq_ok_iff {t : SampleType} {f : SampleFormat}
    {encode : ByteOrder → t.Word → Except ConversionError Bytes} :
    t.losslessEncoder f = .ok encode ↔ t.isLossless f = true ∧ t.encoder f = .ok encode := by
  rw [losslessEncoder]
  split
  · next h => simp only [h, true_and]
  · next h => simp only [h, reduceCtorEq, Bool.false_eq_true, false_and]

/-- A lossless encoder never fails, and what it stores loads as the same number. -/
theorem losslessEncoder_kept {t : SampleType} {f : SampleFormat}
    {encode : ByteOrder → t.Word → Except ConversionError Bytes}
    (h : t.losslessEncoder f = .ok encode) (order : ByteOrder) (v : t.Word) :
    ∃ target stored, f.storage = .native target ∧ encode order v = .ok stored ∧
      stored.length = f.width ∧ (target.number (target.load order stored)).Same (t.number v) := by
  obtain ⟨hlossless, hencoder⟩ := losslessEncoder_eq_ok_iff.mp h
  obtain ⟨target, hstorage, hcovers⟩ := covers_of_lossless hlossless
  obtain ⟨kept, hkept, hsame⟩ := convert_of_covers hcovers v
  simp only [encoder, hstorage, Except.ok.injEq] at hencoder
  subst hencoder
  refine ⟨target, target.store order kept, hstorage, ?_, ?_, ?_⟩
  · exact Except.map_eq_ok_iff.mpr ⟨kept, hkept, rfl⟩
  · rw [length_store, SampleFormat.width_of_native hstorage]
  · rwa [load_store]

end SampleType

/-! ### Lossless traces -/

/-- Whether the samples of a trace are where it is found, one after the other, each of them the same
number in the type of the format. -/
def HoldsSamples (f : SampleFormat) (order : ByteOrder) (content : Bytes) (t : NewTrace)
    (found : Trace) : Prop :=
  ∃ target stored, f.storage = .native target ∧
    Bytes.slice content found.start found.length = stored.flatten ∧
    (∀ b ∈ stored, b.length = f.width) ∧
    List.Forall₂ (fun v b => (target.number (target.load order b)).Same (t.type.number v))
      t.samples stored

/-- The samples of a block that was encoded losslessly. -/
theorem Writer.Encodes.same_samples {w : Writer} {t : NewTrace} {b : Block} (h : w.Encodes t b)
    (hlossless : t.lossless = true) : ∃ target, w.binary.format.storage = .native target ∧
      List.Forall₂ (fun v stored =>
        (target.number (target.load w.binary.order stored)).Same (t.type.number v))
        t.samples b.samples := by
  obtain ⟨encode, hencode, hsamples⟩ := h.samples
  obtain ⟨target, hstorage, -⟩ := Writer.encoder_eq_ok hencode
  rw [Writer.encoder, if_pos hlossless] at hencode
  refine ⟨target, hstorage, hsamples.imp fun v stored hstored => ?_⟩
  obtain ⟨target', stored', hstorage', hstored', -, hsame⟩ :=
    SampleType.losslessEncoder_kept hencode w.binary.order v
  rw [hstorage] at hstorage'
  rw [hstored] at hstored'
  cases hstorage'
  cases hstored'
  exact hsame

namespace Session

/-- **What is written losslessly is not changed.**  A lossless encoder never fails on a number, and
what it stores loads as an equal one.  So in a new file, whatever its headers and settings are and
whatever else happens to it except that someone else writes to it, every trace that was appended
losslessly holds the samples that it was given. -/
theorem run_keeps_lossless :
    (∀ (t : SampleType) (f : SampleFormat) (encode),
      t.losslessEncoder f = .ok encode → ∀ (order : ByteOrder) (v : t.Word),
        (t.number v).isNan = false → ∃ target stored, f.storage = .native target ∧
          encode order v = .ok stored ∧ stored.length = f.width ∧
          (target.number (target.load order stored)).Equal (t.number v)) ∧
    ∀ (d d' : Directory) (name text : Bytes) (s : Settings) (binary : BinaryHeader)
      (label : Option TapeLabel) (w : Writer),
      Writer.create d name s text binary label = (d', .ok w) → ∀ actions : List Action,
        (∀ l content, Action.elsewhere l content ∈ actions → l ≠ w.location) →
        ∃ content, (run ⟨d', w⟩ actions).directory.get? w.location = some content ∧
          List.Forall₂ (fun t found => t.lossless = true →
            HoldsSamples binary.format binary.order content t found)
            (appended ⟨d', w⟩ actions) (run ⟨d', w⟩ actions).writer.traces := by
  constructor
  · intro t f encode h order v hv
    obtain ⟨target, stored, hstorage, hstored, hlength, hsame⟩ :=
      SampleType.losslessEncoder_kept h order v
    exact ⟨target, stored, hstorage, hstored, hlength, hsame.equal hv⟩
  · intro d d' name text s binary label w hw actions hothers
    obtain ⟨begin, -, hlogged⟩ := logged_of_create hw
    obtain ⟨blocks, hblocks, hrun⟩ := hlogged.run actions hothers
    have hbinary : w.binary = binary := by
      obtain ⟨_, _, -, -, -, rfl⟩ := Writer.of_create hw
      rfl
    rw [List.nil_append] at hrun
    refine ⟨_, hrun.content, ?_⟩
    rw [hrun.traces]
    refine hblocks.compose (Block.isAt_traces begin blocks) fun {t b found} hb hat hlossless => ?_
    obtain ⟨target, hstorage, hsame⟩ := hb.same_samples hlossless
    rw [hbinary] at hstorage hsame
    exact ⟨target, b.samples, hstorage, hat.slice, hbinary ▸ hb.width.1, hsame⟩

/-- A trace that doubles hold exactly, but singles do not. -/
def losslessTrace : NewTrace where
  header := .blank
  extended := [7]
  type := .int32
  samples := [0x7FFFFFFF]
  lossless := true

/-- A trace of a type that doubles do not hold exactly is refused, and the one after it is kept. -/
theorem run_keeps_lossless_refusal :
    let binary : BinaryHeader := { BinaryHeader.blank.withSamples 1 with format := .ieeeDouble }
    let refused : Action := .append { losslessTrace with type := .int64, samples := [0] }
    (∃ encode target stored, SampleType.losslessEncoder .uint8 .ieeeFloat = .ok encode ∧
      SampleFormat.ieeeFloat.storage = .native target ∧ encode .big 200 = .ok stored ∧
      stored.length = 4 ∧ (target.number (target.load .big stored)).Equal (.ofInt 200)) ∧
    ∃ d w content found, Writer.create {} [0x61] {} [0x43] binary none = (d, .ok w) ∧
      (run ⟨d, w⟩ [refused, .append losslessTrace]).directory.get? w.location = some content ∧
      (run ⟨d, w⟩ [refused, .append losslessTrace]).writer.traces = [found] ∧
      HoldsSamples .ieeeDouble binary.order content losslessTrace found := by
  intro binary refused
  constructor
  · obtain ⟨target, stored, h⟩ := run_keeps_lossless.1 .uint8 .ieeeFloat _ rfl .big 200 rfl
    exact ⟨_, target, stored, rfl, h⟩
  · have hrun : (match Writer.create {} [0x61] {} [0x43] binary none with
        | (d, .ok w) => !(perform ⟨d, w⟩ refused).2 &&
          ((perform ⟨d, w⟩ refused).1.perform (.append losslessTrace)).2
        | (_, .error _) => false) = true := by
      decide +kernel
    split at hrun
    · next d w hw =>
      simp only [Bool.and_eq_true, Bool.not_eq_true'] at hrun
      have happended : appended ⟨d, w⟩ [refused, .append losslessTrace] = [losslessTrace] := by
        simp [appended, appended?, hrun.1, hrun.2, Action.request?]
      have hothers : ∀ l content, Action.elsewhere l content ∈ [refused, .append losslessTrace] →
          l ≠ w.location := by
        intro l content h
        simp [refused] at h
      obtain ⟨content, hcontent, hkept⟩ := run_keeps_lossless.2 _ _ _ _ _ _ _ _ hw _ hothers
      rw [happended] at hkept
      generalize htraces : (run ⟨d, w⟩ _).writer.traces = traces at hkept
      cases hkept with
      | cons hfirst hrest =>
        cases hrest
        exact ⟨d, w, content, _, hw, hcontent, htraces, hfirst rfl⟩
    · cases hrun

end Session

end SegY
