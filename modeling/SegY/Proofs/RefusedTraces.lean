import SegY.Proofs.FailedAppends
import SegY.Proofs.LosslessSamples

/-!
# Appending a trace — what can be wrong with it

A trace can be appended unless something is wrong with it.  What can be is tested for in a fixed
order (`Writer.Refusal.all`), and all of it before the file is touched.  A caller sees the first
test that applies, by the kind of the error.

* `SampleType.exists_encoder_iff`, `TraceHeader.exists_toBytes_iff`: what each part of an append
  needs to succeed.
* `Writer.failsBy_encode`, `Writer.failsBy_append`: an append fails by the first refusal.
* `Session.append_failsBy_firstRefusal`: so it is after any calls, and nothing else is refused.
-/

namespace SegY

/-- What an error is about, which is all that most callers look at. -/
inductive ErrorKind where
  | malformed
  | unknownCode
  | conversion
  | shape
  | settings
  | header
  | index
  | system
  | wrapped
  deriving DecidableEq, Repr

/-- The kind of an error. -/
def Error.kind : Error → ErrorKind
  | malformed _ => .malformed
  | unknownCode _ => .unknownCode
  | conversion _ => .conversion
  | shape _ => .shape
  | settings _ => .settings
  | header _ => .header
  | index _ => .index
  | system _ => .system
  | wrapped _ => .wrapped

/-! ### What each part needs -/

namespace SampleType

variable {t : SampleType} {f : SampleFormat}

/-- Four formats are not written. -/
theorem exists_encoder_iff : (∃ encode, t.encoder f = .ok encode) ↔
    f ∉ [.ibmFloat, .fixedPoint, .int24, .uint24] := by
  cases f <;> simp [encoder, SampleFormat.storage]

/-- A format that holds a type exactly is written. -/
theorem exists_losslessEncoder_iff :
    (∃ encode, t.losslessEncoder f = .ok encode) ↔ t.isLossless f = true := by
  simp only [losslessEncoder_eq_ok_iff, exists_and_left, and_iff_left_iff_imp]
  intro h
  obtain ⟨target, hstorage, -⟩ := covers_of_lossless h
  rw [encoder, hstorage]
  exact ⟨_, rfl⟩

end SampleType

/-- A coordinate is written unless it is to be a hexadecimal float, or is below zero and is to be an
unsigned integer. -/
theorem CoordinateFormat.exists_encode_iff {f : CoordinateFormat} {order : ByteOrder} {n : Int32} :
    (∃ b, f.encode order n = .ok b) ↔ f ≠ .ibmFloat ∧ (f = .uint32 → ¬ n < 0) := by
  cases f with
  | int32 => simp [encode]
  | ieeeFloat =>
      simp only [encode, Except.exists_map_iff]
      exact ⟨fun _ => by simp, fun _ => ⟨_, rfl⟩⟩
  | ibmFloat => simp [encode]
  | uint32 =>
      have hvalue : (SampleType.int32.number n.toBitVec).toRat? = some (n.toInt : ℚ) :=
        SampleType.toRat?_number_integer .int32 n.toBitVec
      have hconvert := @SampleType.exists_convert_integer_iff .int32 n.toBitVec .uint32
      have hlowest : IntegerType.uint32.lowest = 0 := rfl
      have hhighest : n.toInt ≤ IntegerType.uint32.highest :=
        le_of_lt (n.toInt_lt.trans (by decide))
      refine Except.exists_map_iff.trans (hconvert.trans ?_)
      simp [IntegerType.HasPart, hvalue, Number.towardZero_intCast, hlowest, hhighest,
        Int32.le_iff_toInt_le]

theorem TraceHeader.exists_toBytes_iff {order : ByteOrder} {s : Settings} {h : TraceHeader} :
    (∃ b, h.toBytes order s = .ok b) ↔ s.coordinateFormat ≠ .ibmFloat ∧
      ∀ c, s.coordinateFormat = .uint32 → ¬ h.coordinate c < 0 := by
  have hpiece : ∀ c, (∃ p, coordinatePiece order s h c = .ok p) ↔
      s.coordinateFormat ≠ .ibmFloat ∧ (s.coordinateFormat = .uint32 → ¬ h.coordinate c < 0) :=
    fun _ => Except.exists_map_iff.trans CoordinateFormat.exists_encode_iff
  have hmap : (∃ b, h.toBytes order s = .ok b) ↔
      ∃ coordinates, Coordinate.all.mapM (coordinatePiece order s h) = .ok coordinates := by
    simp [toBytes, Except.bind_eq_ok_iff, pure, Except.pure]
  rw [hmap, Except.exists_mapM_iff]
  simp only [Coordinate.mem_all, forall_const, hpiece]
  exact ⟨fun h => ⟨(h .distance).1, fun c => (h c).2⟩, fun h c => ⟨h.1, h.2 c⟩⟩

namespace Writer

variable {w : Writer} {t : NewTrace}

theorem exists_encoder_iff : (∃ encode, w.encoder t = .ok encode) ↔
    ¬ (t.lossless = true ∧ t.type.isLossless w.binary.format = false ∨
      t.lossless = false ∧ w.binary.format ∈ [.ibmFloat, .fixedPoint, .int24, .uint24]) := by
  rw [encoder]
  cases t.lossless with
  | true => simpa using SampleType.exists_losslessEncoder_iff
  | false => simpa using SampleType.exists_encoder_iff

theorem exists_checkShape_iff {header : TraceHeader} {n : Nat} :
    (∃ u, w.checkShape header n = .ok u) ↔
      ¬ (65535 < n ∨ n ≠ w.binary.samples.toNat ∧ n ≠ header.samples.toNat) := by
  simp only [checkShape, maxSamples]
  by_cases hmany : 65535 < n
  · simp [hmany]
  by_cases hdeclared : n = w.binary.samples.toNat ∨ n = header.samples.toNat
  · simp only [if_neg hmany, if_pos hdeclared, exists_const, true_iff]
    omega
  · simp only [if_neg hmany, if_neg hdeclared, reduceCtorEq, exists_false, false_iff]
    omega

/-- Samples are written to a format of integers if that has the integer part of each. -/
theorem exists_samples_iff {encode : ByteOrder → t.type.Word → Except ConversionError Bytes}
    (hencode : w.encoder t = .ok encode) :
    (∃ stored, t.samples.mapM (encode w.binary.order) = .ok stored) ↔
      ¬ ∃ target, w.binary.format.storage = .native (.integer target) ∧
        ∃ v ∈ t.samples, ¬ target.HasPart (t.type.number v) := by
  obtain ⟨type, hstorage, rfl⟩ := encoder_eq_ok hencode
  simp only [Except.exists_mapM_iff, Except.exists_map_iff, hstorage, Storage.native.injEq]
  cases type with
  | floating type =>
      simp only [reduceCtorEq, false_and, exists_false, not_false_eq_true, iff_true]
      exact fun _ _ => ⟨_, rfl⟩
  | integer type =>
      simp only [SampleType.exists_convert_integer_iff, SampleType.integer.injEq, exists_eq_left',
        not_exists, not_and, not_not]

/-! ### Refusals -/

/-- What can be wrong with a new trace. -/
inductive Refusal where
  | format
  | shape
  | coordinate
  | sample
  | closed
  deriving DecidableEq, Repr

namespace Refusal

/-- All refusals, in the order in which they are tested for. -/
def all : List Refusal := [format, shape, coordinate, sample, closed]

/-- The kind of error that a caller sees. -/
def kind : Refusal → ErrorKind
  | format | coordinate | sample => .conversion
  | shape => .shape
  | closed => .system

/-- Whether this is wrong with a trace that is appended to a file. -/
def Applies (w : Writer) (t : NewTrace) : Refusal → Prop
  | format => t.lossless = true ∧ t.type.isLossless w.binary.format = false ∨
      t.lossless = false ∧ w.binary.format ∈ [.ibmFloat, .fixedPoint, .int24, .uint24]
  | shape => 65535 < t.samples.length ∨
      t.samples.length ≠ w.binary.samples.toNat ∧ t.samples.length ≠ t.header.samples.toNat
  | coordinate => w.settings.coordinateFormat = .ibmFloat ∨
      w.settings.coordinateFormat = .uint32 ∧ ∃ c, t.header.coordinate c < 0
  | sample => ∃ target, w.binary.format.storage = .native (.integer target) ∧
      ∃ v ∈ t.samples, ¬ target.HasPart (t.type.number v)
  | closed => w.isOpen = false

theorem mem_all (r : Refusal) : r ∈ all := by
  cases r <;> decide

/-- The tests for these refusals. -/
def tests (w : Writer) (t : NewTrace) (refusals : List Refusal) : List (ErrorKind → Prop) :=
  refusals.map fun r kind => r.Applies w t ∧ kind = r.kind

end Refusal

/-- A trace is encoded unless one of the first four refusals applies. -/
theorem failsBy_encode :
    ((w.encode t).mapError Error.kind).FailsBy
      (Refusal.tests w t [.format, .shape, .coordinate, .sample]) := by
  have hcoordinate : (∃ b, t.header.toBytes w.binary.order w.settings = .ok b) ↔
      ¬ Refusal.coordinate.Applies w t := by
    rw [TraceHeader.exists_toBytes_iff]
    show _ ↔ ¬ (_ ∨ _ ∧ ∃ c, t.header.coordinate c < 0)
    simp only [not_or, not_and, not_exists]
    exact and_congr_right fun _ => forall_comm
  -- one test for each part, in the order of the binds
  simp only [encode, Except.mapError_bind, Except.mapError_mapError]
  refine (Except.failsBy_mapError_const exists_encoder_iff fun _ => rfl).bind fun encode he => ?_
  refine (Except.failsBy_mapError_const exists_checkShape_iff fun _ => rfl).bind fun _ _ => ?_
  refine (Except.failsBy_mapError_const hcoordinate fun _ => rfl).bind fun header _ => ?_
  refine (Except.failsBy_mapError_const
    (exists_samples_iff (Except.mapError_eq_ok_iff.mp he)) fun _ => rfl).bind fun samples _ => ?_
  exact Except.failsBy_ok _

/-- Encoding does not ask the system for anything. -/
theorem encode_ne_system (e : SystemError) : w.encode t ≠ .error (.system e) := by
  intro h
  have hfirst := (failsBy_encode .system).mp (Except.mapError_eq_error_iff.mpr ⟨_, h, rfl⟩)
  simp [Refusal.tests, Refusal.kind, Except.firstOf_cons_iff, Except.not_firstOf_nil] at hfirst

/-! ### An append -/

/-- What an append gives is what encoding gives, and then writing. -/
theorem append_result_eq (w : Writer) (d : Directory) (t : NewTrace) :
    (w.append d t).2.2 = w.encode t >>= fun encoded =>
      (w.commit d t.header encoded.1 encoded.2).2.2.mapError .system := by
  rw [append]
  cases w.encode t <;> rfl

section Append

variable {d : Directory} {content : Bytes} (h : d.get? w.location = some content)
  (hp : w.position = content.length) (hb : w.broken = false)
  (hlimit : w.isOpen = true → d.limit = none)
include h hp hb hlimit

/-- Without a limit a trace is written to every file that is open. -/
theorem commit_result_cases (header : TraceHeader) (head samples : Bytes) :
    w.isOpen = false ∧ (w.commit d header head samples).2.2 = .error .closed ∨
      w.isOpen = true ∧ ∃ trace, (w.commit d header head samples).2.2 = .ok trace := by
  cases hopen : w.isOpen with
  | false => exact .inl ⟨rfl, by simp [commit, hopen]⟩
  | true =>
      have hallows : d.Allows (content ++ (head ++ samples)).length := fun limit hl => by
        rw [hlimit hopen] at hl
        cases hl
      have hwrite := Directory.write_of_allows h hallows
      rw [← hp] at hwrite
      exact .inr ⟨rfl, ⟨_, by simp only [commit, hopen, hb, hwrite, Bool.not_true,
        Bool.false_eq_true, if_false]; rfl⟩⟩

theorem failsBy_commit (header : TraceHeader) (head samples : Bytes) :
    ((w.commit d header head samples).2.2.mapError fun e => Error.kind (.system e)).FailsBy
      (Refusal.tests w t [.closed]) := by
  refine Except.failsBy_mapError_const ?_ fun _ => rfl
  show _ ↔ ¬ w.isOpen = false
  rcases commit_result_cases h hp hb hlimit header head samples with ⟨hopen, hc⟩ | ⟨hopen, trace, hc⟩
  · simp [hopen, hc]
  · simp [hopen, hc]

/-- The system refuses only a file that was closed. -/
theorem eq_closed_of_append {e : SystemError}
    (he : (w.append d t).2.2 = .error (.system e)) : e = .closed := by
  rw [append_result_eq, Except.bind_eq_error_iff] at he
  rcases he with he | ⟨encoded, -, he⟩
  · exact absurd he (encode_ne_system e)
  · obtain ⟨e', he', hsystem⟩ := Except.mapError_eq_error_iff.mp he
    cases hsystem
    rcases commit_result_cases h hp hb hlimit t.header encoded.1 encoded.2 with
      ⟨-, hc⟩ | ⟨-, trace, hc⟩
    · exact (Except.error.inj (hc.symm.trans he')).symm
    · cases hc.symm.trans he'

/-- **An append fails by the first refusal.** -/
theorem failsBy_append :
    ((w.append d t).2.2.mapError Error.kind).FailsBy (Refusal.tests w t Refusal.all) := by
  rw [append_result_eq, Except.mapError_bind]
  refine failsBy_encode.bind fun encoded _ => ?_
  rw [Except.mapError_mapError]
  exact failsBy_commit h hp hb hlimit _ _ _

end Append

end Writer

namespace Session

/-- **A trace is appended exactly if nothing is wrong with it.**  Make a file, with whatever headers
and settings, and let anything happen to it except that someone else writes to it.  Then as long as
there is no limit on the length of files, an append of a trace fails exactly if a refusal applies,
and the first of them decides the kind of the error.  Only a closed file can fail with an error of
the system, and for it the other refusals come first as well. -/
theorem append_failsBy_firstRefusal {d d' : Directory} {name text : Bytes} {s : Settings}
    {binary : BinaryHeader} {label : Option TapeLabel} {w : Writer}
    (hw : Writer.create d name s text binary label = (d', .ok w)) (before : List Action)
    (hothers : ∀ l content, Action.elsewhere l content ∈ before → l ≠ w.location) (t : NewTrace) :
    let σ := run ⟨d', w⟩ before
    (σ.writer.isOpen = true → σ.directory.limit = none) →
    let result := (σ.writer.append σ.directory t).2.2
    (result.mapError Error.kind).FailsBy
        (Writer.Refusal.tests σ.writer t [.format, .shape, .coordinate, .sample, .closed]) ∧
      ((∃ trace, result = .ok trace) ↔ ∀ r, ¬ Writer.Refusal.Applies σ.writer t r) ∧
      (∀ e, result = .error (.system e) → e = .closed) ∧
      σ.writer.binary = binary ∧ σ.writer.settings = s := by
  intro σ hlimit result
  obtain ⟨begin, -, hlogged⟩ := logged_of_create hw
  obtain ⟨blocks, -, hσ⟩ := hlogged.run before hothers
  have hcreated : w.binary = binary ∧ w.settings = s := by
    obtain ⟨_, _, -, -, -, rfl⟩ := Writer.of_create hw
    exact ⟨rfl, rfl⟩
  have hcontent := hσ.content
  rw [← hσ.location] at hcontent
  have hfails : (result.mapError Error.kind).FailsBy
      (Writer.Refusal.tests σ.writer t Writer.Refusal.all) :=
    Writer.failsBy_append hcontent hσ.position hσ.whole hlimit
  have hok := hfails.exists_ok_iff
  simp only [Except.mapError_eq_ok_iff] at hok
  refine ⟨hfails, hok.trans ⟨fun h r hr => ?_, fun h test htest kind hkind => ?_⟩, fun e he => ?_,
    hσ.binary.trans hcreated.1, hσ.settings.trans hcreated.2⟩
  · exact h _ (List.mem_map_of_mem r.mem_all) r.kind ⟨hr, rfl⟩
  · obtain ⟨r, -, rfl⟩ := List.mem_map.mp htest
    exact h r hkind.1
  · exact Writer.eq_closed_of_append hcontent hσ.position hσ.whole hlimit he

/-- The binary header of a file for traces of one sample. -/
def oneInteger : BinaryHeader := { BinaryHeader.blank.withSamples 1 with format := .int16 }

/-- A trace of one sample is appended to a new file.  One of three samples is refused for its shape,
also once the file is closed. -/
theorem append_failsBy_firstRefusal_closed :
    ∃ d w, Writer.create {} [0x61] {} [0x43] oneInteger none = (d, .ok w) ∧
      (∃ trace, (w.append d oneSampleTrace).2.2 = .ok trace) ∧
      let σ := run ⟨d, w⟩ [.close]
      (σ.writer.append σ.directory { oneSampleTrace with samples := [7, 8, 9] }).2.2.mapError
        Error.kind = .error .shape := by
  have hallows : ∀ length, Directory.Allows {} length := fun _ _ h => by cases h
  obtain ⟨d, w, hw, hopen, hlimit⟩ : ∃ d w,
      Writer.create {} [0x61] {} [0x43] oneInteger none = (d, .ok w) ∧ w.isOpen = true ∧
        d.limit = none :=
    ⟨_, _, Writer.create_of_allows rfl rfl (hallows _), rfl, rfl⟩
  refine ⟨d, w, hw, ?_, ?_⟩
  · obtain ⟨-, hok, -, hbinary, hsettings⟩ := append_failsBy_firstRefusal hw []
      (fun _ _ h => absurd h List.not_mem_nil) oneSampleTrace fun _ => hlimit
    refine hok.mpr fun r hr => ?_
    cases r with
    | format =>
        rw [Writer.Refusal.Applies, hbinary] at hr
        exact absurd hr (by decide)
    | shape =>
        rw [Writer.Refusal.Applies, hbinary] at hr
        exact absurd hr (by decide)
    | coordinate =>
        rw [Writer.Refusal.Applies, hsettings] at hr
        rcases hr with h | ⟨h, -⟩ <;> cases h
    | sample =>
        rw [Writer.Refusal.Applies, hbinary] at hr
        obtain ⟨target, hstorage, v, hv, hpart⟩ := hr
        cases hstorage
        cases List.mem_singleton.mp hv
        refine hpart ⟨7, Number.toRat?_ofInt 7, ?_⟩
        rw [← Int.cast_ofNat, Number.towardZero_intCast]
        decide
    | closed =>
        rw [Writer.Refusal.Applies, run, hopen] at hr
        cases hr
  · obtain ⟨hfails, -, -, hbinary, -⟩ := append_failsBy_firstRefusal hw [.close]
      (fun _ _ h => by simp at h) { oneSampleTrace with samples := [7, 8, 9] } fun _ => hlimit
    refine (hfails .shape).mpr (.later (fun _ h => ?_) (.here ⟨?_, rfl⟩))
    · have h := h.1
      rw [Writer.Refusal.Applies, hbinary] at h
      exact absurd h (by decide)
    · rw [Writer.Refusal.Applies, hbinary]
      decide

end Session

end SegY
