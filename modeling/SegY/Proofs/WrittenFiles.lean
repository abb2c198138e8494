import SegY.Proofs.SampleReading
import SegY.Proofs.ScanTrail
import SegY.Proofs.TraceCodec
import SegY.Proofs.WriterRuns
import SegY.Reader

/-!
# Written files are read back

A file that was written with default settings is opened again at any point of the run: what is
found is what was appended until then.  A block is found by its position alone, so all of this
rests on the blocks lying one after the other (`Session.Logged`) and each of them being as long as
its header says (`Block.Plain`).

* `Scan.scan_of_blocks`: the scan of a file of blocks finds each of them, and stops at the end of
  the file.
* `File.ofImage_of_blocks`: what is opened of such a file.
* `Session.ofPath_run`: a written file, read back at any point of a run.
-/

namespace SegY

/-- A trace with what is left of its header once it was written. -/
def Trace.settled (t : Trace) : Trace := { t with header := t.header.settled }

/-- A block that nothing but its header is needed to find the end of. -/
structure Block.Plain (binary : BinaryHeader) (b : Block) : Prop where
  head : b.header.toBytes binary.order {} = .ok b.head
  extended : b.extended = []
  data : b.data.length = binary.format.width *
    if binary.fixedLength then binary.samples.toNat else b.header.samples.toNat

theorem Block.Plain.length_head {binary : BinaryHeader} {b : Block} (h : b.Plain binary) :
    b.head.length = HeaderKind.trace.length :=
  TraceHeader.length_of_toBytes (fun g => by cases g <;> decide) h.head

theorem Block.Plain.offset {binary : BinaryHeader} {b : Block} (h : b.Plain binary) :
    b.offset = HeaderKind.trace.length := by
  rw [Block.offset, h.length_head, h.extended, List.length_nil, Nat.add_zero]

/-- Codes that are invalid in the binary header do not matter. -/
theorem Block.Plain.settled {binary : BinaryHeader} {b : Block} (h : b.Plain binary) :
    b.Plain binary.settled :=
  ⟨h.head, h.extended, h.data⟩

/-! ### The scan of blocks -/

namespace Scan

variable {image : Image} {binary : BinaryHeader} {s : Settings}

section Block

variable {b : Block} (hb : b.Plain binary) {before rest : Bytes}
  (himage : image.toList = before ++ (b.bytes ++ rest))
include hb himage

theorem slice_head_of_block : image.slice before.length HeaderKind.trace.length = b.head := by
  rw [Block.bytes, List.append_assoc, List.append_assoc] at himage
  rw [← hb.length_head, Image.slice_of_append himage]

theorem headerAt_of_block (k : Nat) :
    headerAt image binary {} before.length k = .ok b.header.settled := by
  rw [headerAt, slice_head_of_block hb himage]
  exact TraceHeader.ofBytes_toBytes hb.head k

theorem recordLength_of_block : recordLength image binary before.length = b.data.length := by
  rw [hb.data]
  cases hmode : binary.fixedLength with
  | true => exact recordLength_of_fixed hmode image _
  | false =>
      -- the number of the record does not matter, so the header is read as that of the first one
      rw [recordLength_of_headerAt hmode (headerAt_of_block hb himage 0)]
      rfl

theorem recordEnd_of_block : recordEnd image binary before.length = (before ++ b.bytes).length := by
  rw [recordEnd, recordLength_of_block hb himage, List.length_append, b.length_bytes, hb.offset,
    Nat.add_assoc]

end Block

/-- A scan stops at the end of a file. -/
theorem ends_of_size {k : Nat} (hk : k < s.maxTraceCount) :
    Ends image binary s image.size k (.ok ⟨.endOfFile, image.size, k, []⟩) := by
  have hshort : image.size < image.size + HeaderKind.trace.length :=
    Nat.lt_add_of_pos_right (by decide)
  cases hmode : binary.fixedLength with
  | true => exact .fixedEndOfFile hmode (Nat.lt_of_lt_of_le hshort (Nat.le_add_right _ _))
  | false => exact .endOfFile hmode hk hshort

/-- A scan walks over blocks one by one. -/
theorem trail_of_blocks {blocks : List Block} (hblocks : ∀ b ∈ blocks, b.Plain binary)
    {before : Bytes}
    (himage : image.toList = before ++ blocks.flatMap Block.bytes) {k : Nat}
    (hk : k + blocks.length < ({} : Settings).maxTraceCount) :
    Trail image binary {} before.length k blocks.length
      ((Block.traces before.length blocks).map Trace.settled) image.size := by
  induction blocks generalizing before k with
  | nil =>
      have hsize : image.size = before.length := by
        rw [← Array.length_toList, himage, List.flatMap_nil, List.append_nil]
      rw [hsize]
      exact .here _ _
  | cons b rest ih =>
      have hb := hblocks b List.mem_cons_self
      rw [List.flatMap_cons] at himage
      have hend := recordEnd_of_block hb himage
      have hlater : image.toList = before ++ b.bytes ++ rest.flatMap Block.bytes := by
        rw [himage, List.append_assoc]
      have hfits : (before ++ b.bytes).length ≤ image.size := by
        rw [← Array.length_toList, hlater]
        exact (List.prefix_append _ _).length_le
      have htraces : (Block.traces before.length (b :: rest)).map Trace.settled =
          (trace? binary {} before.length b.header.settled
            (recordLength image binary before.length)).toList ++
          (Block.traces (before ++ b.bytes).length rest).map Trace.settled := by
        rw [recordLength_of_block hb himage, List.length_append]
        simp only [Block.traces, hb.offset, List.map_cons]
        rfl
      rw [List.length_cons] at hk
      -- the block that was walked over belongs to what is before the rest
      have t :=
        ih (fun c hc => hblocks c (List.mem_cons_of_mem _ hc)) hlater (k := k + 1) (by omega)
      rw [← hend] at t hfits
      rw [htraces, ← hend]
      exact .record (by omega) (headerAt_of_block hb himage k) hfits t

/-- **A file of blocks is scanned to its end.**  Each block is found, and nothing else. -/
theorem scan_of_blocks {blocks : List Block} (hblocks : ∀ b ∈ blocks, b.Plain binary)
    {before : Bytes}
    (himage : image.toList = before ++ blocks.flatMap Block.bytes)
    (hcount : blocks.length < ({} : Settings).maxTraceCount) :
    scan image before.length binary {} = .ok {
      traces := (Block.traces before.length blocks).map Trace.settled
      report := ⟨.endOfFile, image.size, blocks.length, []⟩, binary } := by
  have t := trail_of_blocks hblocks himage (k := 0) (by rwa [Nat.zero_add])
  exact t.scan_eq (ends_of_size hcount)

end Scan

/-! ### Opening a file of blocks -/

namespace File

/-- The headers at the start of a file are where they are looked for. -/
theorem slices_of_headers {image : Image} {text start rest : Bytes} {binary : BinaryHeader}
    {label : Option TapeLabel} (hstart : Writer.labelBytes label = .ok start)
    (hsize : text.length ≤ TextHeader.size)
    (himage : image.toList = start ++ TextHeader.pad text ++ binary.toBytes ++ rest) :
    image.slice 0 (textStart label.isSome) = start ∧
      image.slice (textStart label.isSome) TextHeader.size = TextHeader.pad text ∧
      image.slice (binaryStart label.isSome) HeaderKind.binary.length = binary.toBytes := by
  have hl : start.length = textStart label.isSome := Writer.length_of_labelBytes hstart
  have hp : (TextHeader.pad text).length = TextHeader.size := TextHeader.length_pad hsize
  rw [List.append_assoc] at himage
  refine ⟨?_, ?_, ?_⟩
  · rw [List.append_assoc] at himage
    rw [← hl]
    exact Image.slice_of_append (a := []) himage
  · rw [List.append_assoc] at himage
    rw [← hl, ← hp]
    exact Image.slice_of_append himage
  · rw [binaryStart, ← hl, ← hp, ← List.length_append, ← binary.length_toBytes]
    exact Image.slice_of_append himage

/-- What is opened of a file that is headers and blocks. -/
theorem ofImage_of_blocks {image : Image} {text start : Bytes} {binary : BinaryHeader}
    {label : Option TapeLabel} {blocks : List Block} (hstart : Writer.labelBytes label = .ok start)
    (htext : TextHeader.isPrintable text = true) (hsize : text.length ≤ TextHeader.size)
    (hextended : binary.extendedHeaders = 0) (hblocks : ∀ b ∈ blocks, b.Plain binary)
    (himage : image.toList = start ++ TextHeader.pad text ++ binary.toBytes ++
      blocks.flatMap Block.bytes)
    (hlabel : TapeLabel.isPresent image = label.isSome)
    (hlong : minimumSize label.isSome < image.size)
    (hcount : blocks.length < ({} : Settings).maxTraceCount) :
    ofImage {} image = .ok {
      image, settings := {}, label, text := TextHeader.pad text, extended := [],
      binary := binary.settled
      traces := (Block.traces (extendedStart label.isSome) blocks).map Trace.settled
      report := ⟨.endOfFile, image.size, blocks.length, []⟩ } := by
  obtain ⟨hstartSlice, htextSlice, hbinarySlice⟩ := slices_of_headers hstart hsize himage
  have hread : readLabel image label.isSome = .ok label := by
    cases label with
    | none => rfl
    | some l =>
        have hslice : image.slice 0 HeaderKind.label.length = start := hstartSlice
        simp only [readLabel, Option.isSome_some, if_true, hslice,
          TapeLabel.ofBytes_of_toBytes hstart]
        rfl
  have hbinary : readBinary image label.isSome {} = .ok binary.settled := by
    rw [readBinary, hbinarySlice, binary.ofBytes_toBytes]
  have htexts : TextHeader.decode (image.slice (textStart label.isSome) TextHeader.size) =
      TextHeader.pad text := by
    rw [htextSlice, TextHeader.decode_pad htext]
  have hscan := Scan.scan_of_blocks (fun b hb => (hblocks b hb).settled) himage hcount
  have hbegin :
      (start ++ TextHeader.pad text ++ binary.toBytes).length = extendedStart label.isSome :=
    Writer.length_of_headers (Writer.headers_eq_ok_iff.mpr ⟨hsize, start, hstart, rfl⟩)
  have hnone : binary.settled.extendedHeaders.toNat = 0 := by
    show binary.extendedHeaders.toNat = 0
    rw [hextended]
    rfl
  rw [hbegin] at hscan
  simp only [ofImage, hlabel, if_neg (Nat.not_le.mpr hlong), hread, hbinary, withTraces, hnone,
    Nat.not_lt_zero, if_false, Nat.zero_mul, Nat.add_zero, hscan, htexts, Except.mapError_ok,
    Except.map, bind, Except.bind]
  rfl

end File

/-! ### The samples of a block -/

/-- Samples are written by converting them to the type of the format. -/
theorem Writer.encoder_eq_ok {w : Writer} {t : NewTrace}
    {encodeSample : ByteOrder → t.type.Word → Except ConversionError Bytes}
    (h : w.encoder t = .ok encodeSample) :
    ∃ type, w.binary.format.storage = .native type ∧
      encodeSample = fun order x => (SampleType.convert type t.type x).map (type.store order) := by
  have hlossy : t.type.encoder w.binary.format = .ok encodeSample := by
    unfold encoder SampleType.losslessEncoder at h
    split at h
    · split at h
      · exact h
      · cases h
    · exact h
  unfold SampleType.encoder at hlossy
  split at hlossy
  · cases hlossy
  · next type hstorage =>
    cases hlossy
    exact ⟨type, hstorage, rfl⟩
  · cases hlossy
  · cases hlossy

/-- The samples of a block are those of the trace, as values of the format's type. -/
theorem Writer.Encodes.exists_values {w : Writer} {t : NewTrace} {b : Block} (h : w.Encodes t b) :
    ∃ (type : SampleType) (values : List type.Word), w.binary.format.storage = .native type ∧
      List.Forall₂ (fun x v => SampleType.convert type t.type x = .ok v) t.samples values ∧
      b.samples = values.map (type.store w.binary.order) := by
  obtain ⟨encodeSample, he, hsamples⟩ := h.samples
  obtain ⟨type, hstorage, rfl⟩ := Writer.encoder_eq_ok he
  obtain ⟨values, hvalues, hb⟩ := Except.exists_of_forall₂_map hsamples
  exact ⟨type, values, hstorage, hvalues, hb⟩

/-- The samples of a block have the width of the format. -/
theorem Writer.Encodes.width {w : Writer} {t : NewTrace} {b : Block} (h : w.Encodes t b) :
    (∀ stored ∈ b.samples, stored.length = w.binary.format.width) ∧
      b.samples.length = t.samples.length := by
  obtain ⟨type, values, hstorage, hvalues, hb⟩ := h.exists_values
  rw [hb]
  refine ⟨fun stored hs => ?_, ?_⟩
  · obtain ⟨v, -, rfl⟩ := List.mem_map.mp hs
    rw [SampleType.length_store, SampleFormat.width_of_native hstorage]
  · rw [List.length_map, hvalues.length_eq]

/-- A trace with nothing before its samples, and as many of them as its header or the binary
header says, has a block that can be found from its header. -/
theorem Writer.Encodes.plain {w : Writer} {t : NewTrace} {b : Block} (h : w.Encodes t b)
    (hsettings : w.settings = {}) (hextended : t.extended = [])
    (hshape : t.samples.length =
      if w.binary.fixedLength then w.binary.samples.toNat else t.header.samples.toNat) :
    b.Plain w.binary where
  head := by
    rw [h.header, ← hsettings]
    exact h.head
  extended := by rw [h.extended, hextended]
  data := by
    rw [h.header, ← hshape, ← h.width.2, Nat.mul_comm]
    exact Bytes.length_flatten_of_width h.width.1

/-! ### Reading back -/

/-- A trace of a file that was appended as this one: its header says what was written, and its
samples are the samples as values of the format's type, which can be read as they are stored and
as floats. -/
structure Recovered (f : File) (t : NewTrace) (found : Trace) : Prop where
  header : found.header = t.header.settled
  samples : ∃ (type : SampleType) (values : List type.Word),
    f.binary.format.storage = .native type ∧
    List.Forall₂ (fun x v => SampleType.convert type t.type x = .ok v) t.samples values ∧
    f.readBytes found = .ok (values.map (type.store f.binary.order)).flatten ∧
    f.read found = .ok (values.map (type.toFloat .float32))

section Recovered

variable {f : File} {w : Writer} (hstep : f.settings.step = 1)
  (hbinary : f.binary = w.binary.settled)
include hstep hbinary

theorem recovered_of_block {t : NewTrace} {b : Block} (h : w.Encodes t b) {pos : Nat}
    (hend : pos + b.data.length ≤ f.image.size)
    (hslice : f.image.slice pos b.data.length = b.data) :
    Recovered f t ⟨b.header.settled, pos, b.data.length⟩ := by
  obtain ⟨type, values, hstorage, hvalues, hb⟩ := h.exists_values
  have horder : f.binary.order = w.binary.order := by rw [hbinary]; rfl
  have hformat : f.binary.format = w.binary.format := by rw [hbinary]; rfl
  have hwidth : f.width = w.binary.format.width := by rw [File.width, hformat]
  have hdecoder : f.binary.format.decoder =
      .ok fun order b => type.toFloat .float32 (type.load order b) := by
    rw [SampleFormat.decoder, hformat, hstorage]
  have hlength : b.data.length = b.samples.length * f.width := by
    rw [hwidth]
    exact Bytes.length_flatten_of_width h.width.1
  refine ⟨congrArg TraceHeader.settled h.header, type, values, hformat ▸ hstorage, hvalues, ?_, ?_⟩
  · rw [File.readBytes_eq_slice hstep hend, horder, ← hb]
    exact congrArg Except.ok hslice
  · have hread := File.read_of_samples (t := ⟨b.header.settled, pos, b.data.length⟩)
      (hwidth ▸ h.width.1) hslice hlength hstep hend hdecoder
    rw [hread, hb, List.map_map, horder]
    congr 2
    funext v
    exact congrArg (type.toFloat .float32) (type.load_store w.binary.order v)

/-- The traces of a file of blocks are those that were encoded in them. -/
theorem recovered_of_blocks {ts : List NewTrace} {blocks : List Block}
    (h : List.Forall₂ w.Encodes ts blocks)
    {before : Bytes} (himage : f.image.toList = before ++ blocks.flatMap Block.bytes) :
    List.Forall₂ (Recovered f) ts ((Block.traces before.length blocks).map Trace.settled) := by
  rw [List.forall₂_map_right_iff]
  refine h.compose (himage ▸ Block.isAt_traces before blocks) fun {t b found} hb hat => ?_
  obtain ⟨hheader, hlength, hfits, hslice⟩ := hat
  rw [hlength] at hfits hslice
  have hfound : found.settled = ⟨b.header.settled, found.start, b.data.length⟩ := by
    rw [Trace.settled, hheader, ← hlength]
  rw [hfound]
  exact recovered_of_block hstep hbinary hb hfits (by rw [Image.slice_eq, hslice])

end Recovered

/-- Every block is at least as long as a trace header. -/
theorem Block.length_le_flatMap {binary : BinaryHeader} {blocks : List Block}
    (h : ∀ b ∈ blocks, b.Plain binary) :
    blocks.length ≤ (blocks.flatMap bytes).length := by
  induction blocks with
  | nil => exact Nat.le_refl _
  | cons b rest ih =>
      have hrest := ih fun c hc => h c (List.mem_cons_of_mem _ hc)
      have hb := (h b List.mem_cons_self).offset
      rw [List.flatMap_cons, List.length_append, List.length_cons, b.length_bytes, hb,
        HeaderKind.length]
      omega

namespace Session

/-- **Written files are read back.**  Make a file with default settings and append traces to it,
with calls that fail and limits that cut writes short anywhere among them.  Then at any point at
which the file can be opened at all it holds exactly the traces that were appended, each with its
header and its samples, and the headers with which it was made.  What was appended is what the calls
asked for, and where one asked for scaled coordinates, they are the quotients by its multiplier. -/
theorem ofPath_run {d d' : Directory} {name text : Bytes} {binary : BinaryHeader}
    {label : Option TapeLabel} {w : Writer}
    (hw : Writer.create d name {} text binary label = (d', .ok w))
    (htext : TextHeader.isPrintable text = true) (hextended : binary.extendedHeaders = 0)
    (actions : List Action)
    (hothers : ∀ l content, Action.elsewhere l content ∈ actions → l ≠ w.location)
    (hplain : ∀ t ∈ appended ⟨d', w⟩ actions, t.extended = [])
    (hshape : ∀ t ∈ appended ⟨d', w⟩ actions, t.samples.length =
      if binary.fixedLength then binary.samples.toNat else t.header.samples.toNat)
    {bytes : Bytes} (hbytes : (run ⟨d', w⟩ actions).directory.get? w.location = some bytes)
    (hlabel : TapeLabel.isPresent bytes.toArray = label.isSome)
    (hlong : File.minimumSize label.isSome < bytes.length) (hsize : bytes.length < File.sizeLimit) :
    ∃ f, Reader.ofPath (run ⟨d', w⟩ actions).directory {} name = .ok ⟨f, some w.location⟩ ∧
      Reader.file ⟨f, some w.location⟩ (run ⟨d', w⟩ actions).directory = f ∧
      f.label = label ∧ f.text = TextHeader.pad text ∧ f.extended = [] ∧ f.binary = binary.settled ∧
      f.report = ⟨.endOfFile, bytes.length, (appended ⟨d', w⟩ actions).length, []⟩ ∧
      f.traces = (run ⟨d', w⟩ actions).writer.traces.map Trace.settled ∧
      List.Forall₂ Action.Asks (accepted ⟨d', w⟩ actions) (appended ⟨d', w⟩ actions) ∧
      List.Forall₂ (Recovered f) (appended ⟨d', w⟩ actions) f.traces := by
  obtain ⟨begin, hbegin, hlogged⟩ := logged_of_create hw
  obtain ⟨htextsize, start, hstart, rfl⟩ := Writer.headers_eq_ok_iff.mp hbegin
  obtain ⟨blocks, hblocks, hrun⟩ := hlogged.run actions hothers
  rw [List.nil_append] at hrun
  obtain ⟨hvacancy, hsettings, hbinary⟩ :
      d.vacancy name = .ok w.location ∧ w.settings = {} ∧ w.binary = binary := by
    obtain ⟨_, l, -, hv, -, rfl⟩ := Writer.of_create hw
    exact ⟨hv, rfl, rfl⟩
  have hcontent := hrun.content
  rw [hbytes] at hcontent
  have hbytes' := Option.some.inj hcontent
  have himage : bytes.toArray.toList = start ++ TextHeader.pad text ++ binary.toBytes ++
      blocks.flatMap Block.bytes := by
    rw [List.toList_toArray, hbytes']
  have hlength := Writer.length_of_headers hbegin
  -- what was asked of the traces holds of their blocks
  have hplainBlocks : ∀ b ∈ blocks, b.Plain binary := by
    have hboth := (List.forall₂_and_left (p := fun t => t ∈ appended ⟨d', w⟩ actions) _ _).mpr
      ⟨fun t ht => ht, hblocks⟩
    subst hbinary
    exact hboth.forall_right fun {t b} ⟨ht, hb⟩ => hb.plain hsettings (hplain t ht) (hshape t ht)
  have hcount : blocks.length < ({} : Settings).maxTraceCount := by
    have hle := Block.length_le_flatMap hplainBlocks
    have hmax : ({} : Settings).maxTraceCount = File.sizeLimit - 1 := rfl
    rw [hbytes', List.length_append, hlength, File.extendedStart, HeaderKind.length] at hsize
    rw [hmax]
    omega
  have hopen := File.ofImage_of_blocks hstart htext htextsize hextended hplainBlocks
    himage hlabel (by rwa [List.size_toArray]) hcount
  have hfind : (run ⟨d', w⟩ actions).directory.find name = .ok w.location :=
    Directory.find_of_vacancy hvacancy (by rw [Directory.has, hbytes]; rfl)
  generalize hf : File.mk bytes.toArray _ _ _ _ _ _ _ = f at hopen
  refine ⟨f, ?_, ?_, ?_, ?_, ?_, ?_, ?_, ?_, asks_accepted _ actions, ?_⟩
  · simp only [Reader.ofPath, hfind, hbytes, Option.getD_some, File.ofBytes, hopen,
      Except.mapError_ok, bind, Except.bind]
    rfl
  · refine Reader.file_eq_opened fun l hl => ?_
    cases hl
    rw [hbytes, ← hf, List.toList_toArray]
  · rw [← hf]
  · rw [← hf]
  · rw [← hf]
  · rw [← hf]
  · rw [← hf, hblocks.length_eq, List.size_toArray]
  · rw [← hf, hrun.traces, hlength]
  · have hrecovered := recovered_of_blocks (f := f) (by rw [← hf]) (by rw [← hf, hbinary])
      hblocks (by rwa [← hf])
    have htraces : f.traces =
        (Block.traces (start ++ TextHeader.pad text ++ binary.toBytes).length blocks).map
          Trace.settled := by
      rw [← hf, hlength]
    rwa [htraces]

/-- A trace of two samples. -/
def twoSampleTrace : NewTrace where
  header := .blank
  extended := []
  type := .int8
  samples := [5, 250]
  lossless := false

/-- The first of four traces has too many samples, the third one has scaled coordinates, and the
last comes after the end. -/
def labelledRun : List Action :=
  [.append { twoSampleTrace with samples := [1, 2, 3] }, .append twoSampleTrace,
    .appendScaled twoSampleTrace (t := .int32) ⟨10, 10⟩ 1234 (-57), .close, .append twoSampleTrace]

/-- A file with a label and two traces is read back, and one of them with scaled coordinates. -/
theorem ofPath_run_labelledRun :
    let binary : BinaryHeader :=
      { BinaryHeader.blank.withSamples 2 with fixedLength := true, format := .int16 }
    ∃ d w f, Writer.create {} [0x61] {} [0x43, 0x31] binary (some .blank) = (d, .ok w) ∧
      Reader.ofPath (run ⟨d, w⟩ labelledRun).directory {} [0x61] = .ok ⟨f, some w.location⟩ ∧
      f.traces.map (fun t => t.header.ensemble) = [(0, 0, 0), (10, 123, -5)] ∧
      List.Forall₂ Action.Asks (accepted ⟨d, w⟩ labelledRun) (appended ⟨d, w⟩ labelledRun) ∧
      List.Forall₂ (Recovered f) (appended ⟨d, w⟩ labelledRun) f.traces := by
  intro binary
  have hrun : (match Writer.create {} [0x61] {} [0x43, 0x31] binary (some .blank) with
      | (d, .ok w) =>
        let bytes := ((run ⟨d, w⟩ labelledRun).directory.get? w.location).getD []
        let written := appended ⟨d, w⟩ labelledRun
        written.all (fun t => t.extended.isEmpty && t.samples.length == 2) &&
          written.map (fun t => t.header.ensemble) == [(0, 0, 0), (10, 123, -5)] &&
          bytes.length == 4216 && TapeLabel.isPresent bytes.toArray
      | (_, .error _) => false) = true := by
    decide +kernel
  split at hrun
  · next d w hw =>
    simp only [Bool.and_eq_true, beq_iff_eq, List.all_eq_true, List.isEmpty_iff] at hrun
    obtain ⟨⟨⟨hwritten, hensembles⟩, hlength⟩, hlabel⟩ := hrun
    cases hbytes : (run ⟨d, w⟩ labelledRun).directory.get? w.location with
    | none =>
        rw [hbytes] at hlength
        cases hlength
    | some bytes =>
        rw [hbytes, Option.getD_some] at hlength hlabel
        have hothers : ∀ l content, Action.elsewhere l content ∈ labelledRun → l ≠ w.location := by
          intro l content h
          simp [labelledRun] at h
        obtain ⟨f, hopen, -, -, -, -, -, -, -, hasks, hrecovered⟩ := ofPath_run hw (by decide)
          (by decide) labelledRun hothers (fun t ht => (hwritten t ht).1)
          (fun t ht => (hwritten t ht).2) hbytes hlabel
          (by rw [hlength]; decide) (by rw [hlength]; decide)
        refine ⟨d, w, f, hw, hopen, ?_, hasks, hrecovered⟩
        have hkept : ∀ t found, Recovered f t found →
            found.header.ensemble = t.header.ensemble := fun t found h => by
          rw [h.header]
          rfl
        rw [← hensembles, ← List.forall₂_eq_eq_eq, List.forall₂_map_left_iff,
          List.forall₂_map_right_iff]
        exact (hrecovered.imp hkept).flip
  · cases hrun

end Session

end SegY
