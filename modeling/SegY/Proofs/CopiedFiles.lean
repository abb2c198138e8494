import SegY.Proofs.LosslessSamples
import SegY.Proofs.OpenedFiles
import SegY.Proofs.TraceBijection

/-!
# Copied files

To copy a file is to make a new one with its headers and to append its traces, each with its header
and with its samples as floats.  Nothing of this reads the stored bytes as such, so a copy has the
same bytes only if each part of the file is what is written of it when it was read
(`File.Canonical`).

* `SampleType.convert_toFloat`: a sample of a type that floats cover is got back from its float.
* `File.exists_block`, `File.exists_blocks`: a record and the block that is written of it have the
  same bytes, and so have all records of a trail.
* `File.canonical_of_blocks`: files that were written with default settings are canonical.
* `Session.run_copy_eq`: a canonical file is copied byte for byte.
-/

namespace SegY

/-! ### Samples as floats -/

namespace SampleType

/-- An integer that another type has is got back from it. -/
theorem convert_convert_of_covers {target : SampleType} {s : IntegerType}
    (h : target.Covers (integer s)) {w : s.Word} {v : target.Word}
    (hv : convert target (integer s) w = .ok v) : convert (integer s) target v = .ok w := by
  obtain ⟨v', hv', hsame⟩ := convert_of_covers h w
  cases hv.symm.trans hv'
  rcases hsame.equal rfl with ⟨negative, -, hinfinite⟩ | ⟨x, hx, hinteger⟩
  · cases hinfinite
  · rw [toRat?_number_integer] at hinteger
    exact (convert_integer_eq_ok_iff (hx.trans hinteger.symm)).mpr rfl

/-- A sample of a type that floats cover is got back from its float.  A float is its own float, bit
by bit, so this holds of a NaN too. -/
theorem convert_toFloat {t : SampleType} (h : float32.Covers t) (w : t.Word) :
    convert t float32 (t.toFloat .float32 w) = .ok w := by
  match t, h with
  | integer s, h => exact convert_convert_of_covers h rfl
  | floating .float32, _ => rfl
  | floating .float64, h => exact absurd h (by decide)

end SampleType

namespace File

/-! ### What can be copied -/

/-- The stored header of a trace, which is in front of its samples. -/
def storedHeader (image : Image) (t : Trace) : Bytes :=
  image.slice (t.start - HeaderKind.trace.length) HeaderKind.trace.length

/-- The formats whose samples floats hold exactly. -/
def floatFormats : List SampleFormat := [.ieeeFloat, .int16, .int8, .uint16, .uint8]

/-- A file each part of which is what is written of it when it was read. -/
structure Canonical (f : File) : Prop where
  /-- The scan went on to the end of the file. -/
  ended : f.report.offset = f.image.size
  format : f.binary.format ∈ floatFormats
  unextended : f.binary.extendedHeaders = 0
  label : Writer.labelBytes f.label = .ok (f.image.slice 0 (textStart f.label.isSome))
  text : TextHeader.isPrintable
    (f.image.slice (textStart f.label.isSome) TextHeader.size) = true
  binary : f.binary.toBytes =
    f.image.slice (binaryStart f.label.isSome) HeaderKind.binary.length
  /-- All codes of all trace headers are known. -/
  known : ∀ t ∈ f.traces, ∀ field,
    TraceHeader.isUnknown f.binary.order (storedHeader f.image t) field = false

/-- A trace of a file, to be appended to another one. -/
def copy (f : File) (t : Trace) : Except Error NewTrace :=
  (f.read t).map fun samples => {
    header := t.header, extended := [], type := .float32, samples, lossless := false }

theorem mem_floatFormats_iff {format : SampleFormat} : format ∈ floatFormats ↔
    ∃ type, format.storage = .native type ∧ SampleType.float32.Covers type := by
  constructor
  · intro h
    simp only [floatFormats, List.mem_cons, List.not_mem_nil, or_false] at h
    rcases h with rfl | rfl | rfl | rfl | rfl <;> exact ⟨_, rfl, by decide⟩
  · rintro ⟨type, hstorage, hcovers⟩
    cases format <;> cases hstorage <;> first | decide | exact absurd hcovers (by decide)

/-! ### Traces -/

section Traces

variable {f : File} (hstep : f.settings.step = 1) (hformat : f.binary.format ∈ floatFormats)
  {w : Writer} (hbinary : w.binary = f.binary) (hsettings : w.settings = {})

include hstep hformat in
/-- The samples of a trace are read as floats, and written as they were stored. -/
theorem exists_samples {t : Trace} (hend : t.start + t.length ≤ f.image.size)
    (hwhole : f.width ∣ t.length) :
    ∃ samples stored, f.read t = .ok samples ∧ t.length = samples.length * f.width ∧
      f.image.slice t.start t.length = stored.flatten ∧
      ∃ encodeSample, SampleType.float32.encoder f.binary.format = .ok encodeSample ∧
        List.Forall₂ (fun x b => encodeSample f.binary.order x = .ok b) samples stored := by
  obtain ⟨type, hstorage, hcovers⟩ := mem_floatFormats_iff.mp hformat
  rw [← Image.length_slice hend] at hwhole
  obtain ⟨stored, hwidth, hslice, hlength⟩ := Bytes.exists_chunks hwhole
  rw [Image.length_slice hend] at hlength
  have hdecoder : f.binary.format.decoder =
      .ok fun order b => type.toFloat .float32 (type.load order b) := by
    rw [SampleFormat.decoder, hstorage]
  have hencoder : SampleType.float32.encoder f.binary.format =
      .ok fun order x => (SampleType.convert type .float32 x).map (type.store order) := by
    rw [SampleType.encoder, hstorage]
  refine ⟨_, stored, read_of_samples hwidth hslice hlength hstep hend hdecoder, ?_, hslice,
    _, hencoder, ?_⟩
  · rw [List.length_map, hlength]
  · refine List.forall₂_map_left_iff.mpr (List.forall₂_same.mpr fun b hb => ?_)
    have hb' : b.length = type.width := by
      rw [hwidth b hb, width, SampleFormat.width_of_native hstorage]
    rw [SampleType.convert_toFloat hcovers, Except.map, type.store_load _ _ hb']

/-- A header of known codes is written as it is stored. -/
theorem toBytes_of_headerAt {image : Image} {binary : BinaryHeader} {pos k : Nat}
    {header : TraceHeader} (hh : Scan.headerAt image binary {} pos k = .ok header)
    (hend : pos + HeaderKind.trace.length ≤ image.size)
    (hknown : ∀ field, TraceHeader.isUnknown binary.order
      (image.slice pos HeaderKind.trace.length) field = false) :
    header.toBytes binary.order {} = .ok (image.slice pos HeaderKind.trace.length) := by
  rw [TraceHeader.toBytes_ofBytes (Image.length_slice hend) hh, TraceHeader.cleared_of_known hknown]

/-- A record has as many samples as one of its headers declares. -/
theorem checkShape_of_record {pos k : Nat} {header : TraceHeader}
    (hh : Scan.headerAt f.image w.binary {} pos k = .ok header) :
    w.checkShape header (Scan.recordSamples f.image w.binary pos) = .ok () := by
  have hdeclared : Scan.recordSamples f.image w.binary pos = w.binary.samples.toNat ∨
      Scan.recordSamples f.image w.binary pos = header.samples.toNat := by
    unfold Scan.recordSamples
    split
    · exact .inl rfl
    · exact .inr (Scan.samples_of_headerAt hh).symm
  rw [Writer.checkShape, if_neg (Nat.not_lt.mpr (Scan.recordSamples_le ..)), if_pos hdeclared]

include hstep hformat hbinary hsettings

/-- **A record is copied byte for byte.**  Its trace can be read, and has a block, which is where
the record is. -/
theorem exists_block {pos k : Nat} {header : TraceHeader}
    (hh : Scan.headerAt f.image f.binary {} pos k = .ok header)
    (fits : Scan.recordEnd f.image f.binary pos ≤ f.image.size)
    (hknown : ∀ field, TraceHeader.isUnknown f.binary.order
      (f.image.slice pos HeaderKind.trace.length) field = false) :
    ∃ new b, f.copy ⟨header, pos + HeaderKind.trace.length,
        Scan.recordLength f.image f.binary pos⟩ = .ok new ∧
      w.Encodes new b ∧ f.image.toList.drop pos =
        b.bytes ++ f.image.toList.drop (Scan.recordEnd f.image f.binary pos) := by
  obtain ⟨samples, stored, hread, hlength, hslice, encodeSample, hencoder, hstored⟩ :=
    exists_samples hstep hformat (t := ⟨header, pos + HeaderKind.trace.length,
      Scan.recordLength f.image f.binary pos⟩) fits (Nat.dvd_mul_right ..)
  have hcount : samples.length = Scan.recordSamples f.image f.binary pos := by
    refine Nat.eq_of_mul_eq_mul_left f.binary.format.width_pos ?_
    rw [Nat.mul_comm]
    exact hlength.symm
  refine ⟨_, ⟨header, f.image.slice pos HeaderKind.trace.length, [], stored⟩,
    by rw [copy, hread]; rfl, ?_, ?_⟩
  · refine ⟨rfl, ?_, rfl, ?_, encodeSample, ?_, ?_⟩
    · rw [hbinary, hsettings]
      exact toBytes_of_headerAt hh (Nat.le_trans (Nat.le_add_right _ _) fits) hknown
    · show w.checkShape header samples.length = .ok ()
      rw [hcount, ← hbinary]
      exact checkShape_of_record (hbinary ▸ hh)
    · rw [Writer.encoder, hbinary]
      exact hencoder
    · rw [hbinary]
      exact hstored
  · rw [Block.bytes, Block.data, ← hslice, List.append_nil, Image.slice_eq, Image.slice_eq,
      Bytes.slice_append_slice, Scan.recordEnd, Nat.add_assoc, ← Bytes.drop_eq_slice_append]

/-- **The records of a trail are copied byte for byte.** -/
theorem exists_blocks {pos k n stop : Nat} {traces : List Trace}
    (trail : Scan.Trail f.image f.binary {} pos k n traces stop)
    (hknown : ∀ t ∈ traces, ∀ field,
      TraceHeader.isUnknown f.binary.order (storedHeader f.image t) field = false) :
    ∃ news blocks, traces.mapM f.copy = .ok news ∧ List.Forall₂ w.Encodes news blocks ∧
      f.image.toList.drop pos = blocks.flatMap Block.bytes ++ f.image.toList.drop stop := by
  simp only [Except.mapM_eq_ok_iff]
  induction trail with
  | here pos k => exact ⟨[], [], .nil, .nil, rfl⟩
  | @record pos k n stop header traces hk hh fits _ ih =>
      -- with default settings each record gives its trace
      have htrace : Scan.trace? f.binary {} pos header (Scan.recordLength f.image f.binary pos) =
          some ⟨header, pos + HeaderKind.trace.length, Scan.recordLength f.image f.binary pos⟩ :=
        rfl
      rw [htrace, Option.toList_some, List.singleton_append] at hknown ⊢
      have hfirst := hknown _ List.mem_cons_self
      simp only [storedHeader, Nat.add_sub_cancel] at hfirst
      obtain ⟨new, b, hcopy, henc, hbytes⟩ :=
        exists_block hstep hformat hbinary hsettings hh fits hfirst
      obtain ⟨news, blocks, hcopies, hencs, hrest⟩ :=
        ih fun t ht => hknown t (List.mem_cons_of_mem _ ht)
      refine ⟨new :: news, b :: blocks, .cons hcopy hcopies, .cons henc hencs, ?_⟩
      rw [hbytes, hrest, List.flatMap_cons, List.append_assoc]

end Traces

/-! ### Whole files -/

section Opened

variable {f : File} (hopen : ofImage {} f.image = .ok f) (hf : f.Canonical)
include hopen hf

/-- The headers of a canonical file are written as they are stored. -/
theorem headers_of_canonical : Writer.headers f.text f.binary f.label =
    .ok (Bytes.slice f.image.toList 0 (extendedStart f.label.isSome)) := by
  obtain ⟨hlong, htext, -⟩ := parts_of_ofImage hopen
  rw [TextHeader.decode_of_isPrintable hf.text] at htext
  have hlength : f.text.length = TextHeader.size := by
    rw [minimumSize, extendedStart, binaryStart] at hlong
    rw [htext, Image.length_slice (by omega)]
  have hpad : TextHeader.pad f.text = f.text := by
    rw [TextHeader.pad, hlength, Nat.sub_self, List.replicate_zero, List.append_nil]
  refine Writer.headers_eq_ok_iff.mpr ⟨Nat.le_of_eq hlength, _, hf.label, ?_⟩
  rw [hpad, htext, hf.binary, Image.slice_eq, Image.slice_eq, Image.slice_eq, extendedStart,
    binaryStart, ← Bytes.slice_append_slice, ← Bytes.slice_append_slice, Nat.zero_add,
    Nat.zero_add]

/-- A canonical file is its headers, and the blocks of its traces one after the other. -/
theorem blocks_of_canonical {w : Writer} (hbinary : w.binary = f.binary)
    (hsettings : w.settings = {}) :
    ∃ copies blocks, f.traces.mapM f.copy = .ok copies ∧ List.Forall₂ w.Encodes copies blocks ∧
      f.image.toList = Bytes.slice f.image.toList 0 (extendedStart f.label.isSome) ++
        blocks.flatMap Block.bytes := by
  obtain ⟨-, -, hscan⟩ := parts_of_ofImage hopen
  have hstep : f.settings.step = 1 := by rw [(settings_of_ofImage hopen).1]
  -- there are no extended text headers, so the traces come after the headers that are written
  have hstart : tracesStart f.label.isSome f.binary.extendedHeaders.toNat =
      extendedStart f.label.isSome := by
    rw [hf.unextended]
    rfl
  rw [hstart] at hscan
  obtain ⟨trail, -⟩ := Scan.exists_trail_of_scan hscan
  obtain ⟨copies, blocks, hcopies, hblocks, hbytes⟩ :=
    exists_blocks hstep hf.format hbinary hsettings trail hf.known
  refine ⟨copies, blocks, hcopies, hblocks, ?_⟩
  have hrest : f.image.toList.drop (extendedStart f.label.isSome) = blocks.flatMap Block.bytes := by
    rw [hbytes, hf.ended, ← Array.length_toList, List.drop_length, List.append_nil]
  have hall := Bytes.drop_eq_slice_append f.image.toList 0 (extendedStart f.label.isSome)
  rwa [List.drop_zero, Nat.zero_add, hrest] at hall

end Opened

/-- The stored headers of blocks are their heads. -/
theorem storedHeader_of_blocks {image : Image} {binary : BinaryHeader} {blocks : List Block}
    (hblocks : ∀ b ∈ blocks, b.Plain binary) {before : Bytes}
    (himage : image.toList = before ++ blocks.flatMap Block.bytes) :
    ∀ t ∈ Block.traces before.length blocks, ∃ b ∈ blocks, storedHeader image t = b.head := by
  induction blocks generalizing before with
  | nil => exact fun t ht => absurd ht List.not_mem_nil
  | cons b rest ih =>
      intro t ht
      have hb := hblocks b List.mem_cons_self
      rw [List.flatMap_cons] at himage
      rcases List.mem_cons.mp ht with rfl | ht
      · refine ⟨b, List.mem_cons_self, ?_⟩
        rw [storedHeader, hb.offset, Nat.add_sub_cancel]
        exact Scan.slice_head_of_block hb himage
      · rw [← List.append_assoc] at himage
        rw [← List.length_append] at ht
        obtain ⟨c, hc, hstored⟩ :=
          ih (fun c hc => hblocks c (List.mem_cons_of_mem _ hc)) himage t ht
        exact ⟨c, List.mem_cons_of_mem _ hc, hstored⟩

/-- **Written files are canonical**, if they are written with default settings in a format whose
numbers floats have. -/
theorem canonical_of_blocks {image : Image} {text start : Bytes} {binary : BinaryHeader}
    {label : Option TapeLabel} {blocks : List Block} (hstart : Writer.labelBytes label = .ok start)
    (htext : TextHeader.isPrintable text = true) (hsize : text.length ≤ TextHeader.size)
    (hextended : binary.extendedHeaders = 0) (hformat : binary.format ∈ floatFormats)
    (hblocks : ∀ b ∈ blocks, b.Plain binary)
    (himage : image.toList = start ++ TextHeader.pad text ++ binary.toBytes ++
      blocks.flatMap Block.bytes)
    (hlabel : TapeLabel.isPresent image = label.isSome)
    (hlong : minimumSize label.isSome < image.size)
    (hcount : blocks.length < ({} : Settings).maxTraceCount) :
    ∃ f, ofImage {} image = .ok f ∧ f.Canonical ∧ f.traces.length = blocks.length := by
  refine ⟨_, ofImage_of_blocks hstart htext hsize hextended hblocks himage hlabel hlong hcount, ?_,
    by rw [List.length_map, Block.length_traces]⟩
  obtain ⟨hstartSlice, htextSlice, hbinarySlice⟩ := slices_of_headers hstart hsize himage
  have hlength : (start ++ TextHeader.pad text ++ binary.toBytes).length =
      extendedStart label.isSome :=
    Writer.length_of_headers (Writer.headers_eq_ok_iff.mpr ⟨hsize, start, hstart, rfl⟩)
  refine ⟨rfl, hformat, hextended, ?_, ?_, ?_, ?_⟩
  · exact hstart.trans (congrArg Except.ok hstartSlice.symm)
  · exact (congrArg _ htextSlice).trans (TextHeader.isPrintable_pad htext)
  · exact binary.toBytes_settled.trans hbinarySlice.symm
  · intro found hfound field
    obtain ⟨t, ht, rfl⟩ := List.mem_map.mp hfound
    rw [← hlength] at ht
    obtain ⟨b, hb, hstored⟩ := storedHeader_of_blocks hblocks himage t ht
    have hknown := TraceHeader.isUnknown_of_toBytes (hblocks b hb).head field
    rw [← hstored] at hknown
    exact hknown

end File

namespace Session

/-- **A canonical file is copied byte for byte.**  Open a file with default settings whose scan goes
on to its end, with samples of a format whose numbers floats have, and each part of which is what
is written of it when it was read; its traces can be of fixed or of variable length, and in both
byte orders.  Then a new file can be made with its headers where there is room, each trace can be
read and is appended with its samples as floats, and the new file has the same bytes. -/
theorem run_copy_eq {image : Image} {f : File} (hopen : File.ofImage {} image = .ok f)
    (hf : f.Canonical) {d : Directory} {name : Bytes} {l : Location}
    (hvacancy : d.vacancy name = .ok l) (hallows : d.Allows image.size) :
    ∃ d' w copies, Writer.create d name {} f.text f.binary f.label = (d', .ok w) ∧
      f.traces.mapM f.copy = .ok copies ∧
      appended ⟨d', w⟩ (copies.map .append) = copies ∧
      (run ⟨d', w⟩ (copies.map .append)).directory.get? l = some image.toList := by
  obtain ⟨-, rfl⟩ := File.settings_of_ofImage hopen
  have hheaders := File.headers_of_canonical hopen hf
  generalize hw : Writer.mk l {} f.binary true
    (Bytes.slice f.image.toList 0 (File.extendedStart f.label.isSome)).length false [] [] = w
  obtain ⟨copies, blocks, hcopies, hencodes, himage⟩ :=
    File.blocks_of_canonical hopen hf (w := w) (by rw [← hw]) (by rw [← hw])
  generalize Bytes.slice f.image.toList 0 (File.extendedStart f.label.isSome) = begin
    at hheaders hw himage
  have hroom : d.Allows begin.length := hallows.mono (by
    rw [← Array.length_toList, himage]
    exact (List.prefix_append _ _).length_le)
  have hcreate := Writer.create_of_allows (s := {}) hheaders hvacancy hroom
  rw [hw] at hcreate
  obtain ⟨begin', hbegin, hlogged⟩ := logged_of_create hcreate
  cases hheaders.symm.trans hbegin
  rw [← Array.length_toList, himage] at hallows
  obtain ⟨happended, hrun⟩ := hlogged.run_of_allows (by rw [← hw]) hencodes hallows
  have hlocation : w.location = l := by rw [← hw]
  have hcontent := hrun.content
  rw [hlocation, List.nil_append, ← himage] at hcontent
  exact ⟨_, w, copies, hcreate, hcopies, happended, hcontent⟩

/-- A block of big-endian samples whose number stands in the header. -/
def countedBlock (samples : List Bytes) : Block where
  header := TraceHeader.blank.withSamples samples.length
  head := List.replicate 114 0 ++ ByteOrder.big.store 2 samples.length ++ List.replicate 124 0
  extended := []
  samples

/-- Blocks that differ in length, of 16-bit integers. -/
def countedBlocks : List Block := [countedBlock [[0, 7], [255, 254]], countedBlock [[127, 255]]]

/-- A file with a label and these blocks. -/
def countedFile : Bytes :=
  Bytes.assemble HeaderKind.label.length TapeLabel.blank.pieces ++ TextHeader.pad [0x43] ++
    BinaryHeader.toBytes { BinaryHeader.blank with format := .int16 } ++
    countedBlocks.flatMap Block.bytes

/-- A file with a label, and with traces that differ in length, is copied. -/
theorem run_copy_eq_countedFile :
    ∃ f d w copies, File.ofImage {} countedFile.toArray = .ok f ∧ f.Canonical ∧
      Writer.create {} [0x61] {} f.text f.binary f.label = (d, .ok w) ∧
      f.traces.mapM f.copy = .ok copies ∧ appended ⟨d, w⟩ (copies.map .append) = copies ∧
      copies.length = 2 ∧
      (run ⟨d, w⟩ (copies.map .append)).directory.get? ⟨.here, [0x61]⟩ = some countedFile := by
  have hblocks : ∀ b ∈ countedBlocks, (b.header.toBytes .big {}).toOption = some b.head ∧
      b.extended = [] ∧ b.data.length = 2 * b.header.samples.toNat := by
    decide +kernel
  have hplain : ∀ b ∈ countedBlocks, b.Plain { BinaryHeader.blank with format := .int16 } := by
    intro b hb
    obtain ⟨hhead, hextended, hdata⟩ := hblocks b hb
    obtain ⟨head, hwritten⟩ := TraceHeader.exists_toBytes .big b.header
    rw [hwritten] at hhead
    exact ⟨hwritten.trans (congrArg Except.ok (Option.some.inj hhead)), hextended, hdata⟩
  have hstart : Writer.labelBytes (some .blank) =
      .ok (Bytes.assemble HeaderKind.label.length TapeLabel.blank.pieces) := rfl
  have htext : TextHeader.isPrintable [0x43] = true := by decide
  have hlabelled : TapeLabel.isPresent countedFile.toArray = true := by decide +kernel
  obtain ⟨f, hopen, hf, hcount⟩ := File.canonical_of_blocks hstart htext (by decide) (by decide)
    (by decide) hplain rfl hlabelled (by decide +kernel) (by decide +kernel)
  have hvacancy : ({} : Directory).vacancy [0x61] = .ok ⟨.here, [0x61]⟩ := rfl
  have hallows : ({} : Directory).Allows countedFile.toArray.size :=
    fun limit hlimit => by cases hlimit
  obtain ⟨d, w, copies, hcreate, hcopies, happended, hcontent⟩ :=
    run_copy_eq hopen hf hvacancy hallows
  have hlength := (Except.mapM_eq_ok_iff.mp hcopies).length_eq
  exact ⟨f, d, w, copies, hopen, hf, hcreate, hcopies, happended, hlength.symm.trans hcount,
    hcontent⟩

end Session

end SegY
