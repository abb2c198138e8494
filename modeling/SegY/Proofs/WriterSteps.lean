import SegY.File
import SegY.Proofs.FileCodec
import SegY.Writer

/-!
# Writing a file — the single calls

A new file begins with its headers.  An append to a file that ends where the writer thinks it does
puts the block of the trace behind what is there, or it changes nothing at all.  A write that is
cut short is among the latter, because what it left is cut away again.

* `Directory.write_end`, `Directory.truncate_end`: what is written at the end of a file, and cut
  off it.
* `Directory.find_of_vacancy`: the path of a new file leads to it from then on.
* `Writer.headers_eq_ok_iff`, `Writer.of_create`: what a new file begins with, and what made it.
* `Writer.encode_eq_ok_iff`: the blocks that a trace can have.
* `Writer.append_cases`: the two outcomes of an append.
* `Writer.create_of_allows`, `Writer.append_of_allows`: both go well where the file can become long
  enough.
-/

namespace SegY

/-! ### The end of a file -/

namespace Directory

variable {d : Directory} {l : Location} {content : Bytes}

theorem patched_length (content piece : Bytes) :
    patched content content.length piece = content ++ piece := by
  rw [patched, resized_length, List.drop_eq_nil_of_le (by omega), List.append_nil]

/-- At the end of a file as much of a piece is stored as there is room for. -/
theorem write_end_eq (h : d.get? l = some content) (piece : Bytes) :
    d.write l content.length piece =
      (d.put l (content ++ piece.take (d.room content.length piece.length)),
        (piece.take (d.room content.length piece.length)).length == piece.length) := by
  generalize hroom : d.room content.length piece.length = room
  simp only [write, h, hroom, Option.getD_some]
  split
  · next hs => rw [List.isEmpty_iff.mp hs, List.append_nil]
  · rw [patched_length]

/-- At the end of a file all of a piece is stored, or a part of it. -/
theorem write_end (h : d.get? l = some content) (piece : Bytes) :
    d.write l content.length piece = (d.put l (content ++ piece), true) ∨
      ∃ part, d.write l content.length piece = (d.put l (content ++ part), false) := by
  rw [write_end_eq h]
  generalize d.room content.length piece.length = room
  by_cases hfits : piece.length ≤ room
  · left
    rw [List.take_of_length_le hfits, beq_self_eq_true]
  · right
    have hpart : (piece.take room).length ≠ piece.length := by
      rw [List.length_take]
      omega
    exact ⟨piece.take room, by rw [beq_false_of_ne hpart]⟩

/-- Whether a write can make a file this long. -/
def Allows (d : Directory) (length : Nat) : Prop := ∀ limit, d.limit = some limit → length ≤ limit

theorem Allows.mono {long short : Nat} (h : d.Allows long) (hle : short ≤ long) : d.Allows short :=
  fun limit hlimit => Nat.le_trans hle (h limit hlimit)

/-- A piece is stored as a whole if the file can become that long. -/
theorem write_of_allows (h : d.get? l = some content) {piece : Bytes}
    (hallows : d.Allows (content ++ piece).length) :
    d.write l content.length piece = (d.put l (content ++ piece), true) := by
  have hroom : d.room content.length piece.length = piece.length := by
    unfold room
    split
    · next limit hlimit =>
      have hle := hallows limit hlimit
      rw [List.length_append] at hle
      omega
    · rfl
  rw [write_end_eq h, hroom, List.take_length, beq_self_eq_true]

/-- What was written behind the end of a file can be cut off again, whatever the limit is. -/
theorem truncate_end (h : d.get? l = some content) (part : Bytes) :
    (d.put l (content ++ part)).truncate l content.length = (d, true) := by
  have hshort : ¬ (content ++ part).length < content.length := by
    rw [List.length_append]
    omega
  have hcut : resized (content ++ part) content.length = content := by
    rw [resized, List.take_left, Nat.sub_eq_zero_of_le (Nat.not_lt.mp hshort), List.replicate_zero,
      List.append_nil]
  simp only [truncate, get?_put, Option.getD_some, hshort, decide_false, Bool.false_and,
    Bool.false_eq_true, if_false, hcut, put_put, put_of_get? h]

end Directory

/-! ### A new file -/

/-- Where a path leads to a file does not depend on which files there are. -/
theorem Path.follow_of_file {isFile isFile' : Location → Bool} {asFolder asFolder' : Bool}
    {folder : Folder} {names : List Bytes} {l : Location}
    (h : follow isFile asFolder folder names = .file l asFolder') :
    follow isFile' asFolder folder names = .file l asFolder' := by
  induction names generalizing folder with
  | nil => cases h
  | cons name rest ih =>
      unfold follow at h ⊢
      by_cases hself : name = self
      · rw [if_pos hself] at h ⊢
        exact ih h
      · rw [if_neg hself] at h ⊢
        by_cases hup : name = up
        · rw [if_pos hup] at h ⊢
          exact ih h
        · rw [if_neg hup] at h ⊢
          split at h
          · next hlast => rwa [if_pos hlast]
          · split at h
            · cases h
            · split at h <;> cases h

theorem Directory.destination_of_file {d d' : Directory} {path : Bytes} {l : Location}
    {asFolder : Bool}
    (h : d.destination path = .file l asFolder) : d'.destination path = .file l asFolder := by
  simp only [destination, Path.destination] at h ⊢
  split at h
  · cases h
  · next hempty =>
    rw [if_neg hempty]
    split at h
    · cases h
    · next hlong =>
      rw [if_neg hlong]
      exact Path.follow_of_file h

/-- The path of a new file leads to it for as long as there is the file. -/
theorem Directory.find_of_vacancy {d d' : Directory} {path : Bytes} {l : Location}
    (h : d.vacancy path = .ok l) (hl : d'.has l = true) : d'.find path = .ok l := by
  unfold vacancy at h
  split at h
  · cases h
  · cases h
  · next l' asFolder hd =>
    cases asFolder with
    | true => cases h
    | false =>
        simp only [Bool.false_eq_true, if_false] at h
        split at h
        · cases h
        · next hlong =>
          split at h
          · cases h
          · cases h
            rw [find, destination_of_file hd]
            simp only [hlong, hl, Bool.not_true, Bool.false_eq_true, if_false]

namespace Writer

theorem length_of_labelBytes {label : Option TapeLabel} {b : Bytes} (h : labelBytes label = .ok b) :
    b.length = File.textStart label.isSome := by
  cases label with
  | some l => exact TapeLabel.length_of_toBytes h
  | none => cases h; rfl

/-- What a file begins with: the label, if there is one, the text and the binary header. -/
theorem headers_eq_ok_iff {text : Bytes} {binary : BinaryHeader} {label : Option TapeLabel}
    {begin : Bytes} :
    headers text binary label = .ok begin ↔ text.length ≤ TextHeader.size ∧
      ∃ start, labelBytes label = .ok start ∧
        begin = start ++ TextHeader.pad text ++ binary.toBytes := by
  rw [headers]
  split
  · next h =>
    constructor
    · intro hb
      cases hb
    · rintro ⟨ht, -⟩
      exact absurd h (Nat.not_lt.mpr ht)
  · next h =>
    rw [Except.map_eq_ok_iff]
    constructor
    · rintro ⟨start, hl, rfl⟩
      exact ⟨Nat.not_lt.mp h, start, hl, rfl⟩
    · rintro ⟨-, start, hl, rfl⟩
      exact ⟨start, hl, rfl⟩

theorem length_of_headers {text : Bytes} {binary : BinaryHeader} {label : Option TapeLabel}
    {begin : Bytes} (h : headers text binary label = .ok begin) :
    begin.length = File.extendedStart label.isSome := by
  obtain ⟨ht, start, hl, rfl⟩ := headers_eq_ok_iff.mp h
  rw [List.length_append, List.length_append, length_of_labelBytes hl, TextHeader.length_pad ht,
    binary.length_toBytes]
  rfl

/-- A writer was made where there was no file, and now there is one that holds its headers. -/
theorem of_create {d d' : Directory} {name text : Bytes} {s : Settings} {binary : BinaryHeader}
    {label : Option TapeLabel} {w : Writer} (h : create d name s text binary label = (d', .ok w)) :
    ∃ begin l, headers text binary label = .ok begin ∧ d.vacancy name = .ok l ∧ d' = d.put l begin ∧
      w = {
        location := l, settings := s, binary, isOpen := true, position := begin.length
        broken := false, traces := [], placements := [] } := by
  unfold create at h
  split at h
  · cases h
  · next begin hbegin =>
    unfold Directory.create at h
    cases hv : d.vacancy name with
    | error cause =>
        rw [hv] at h
        cases h
    | ok l =>
        have hwrite := Directory.write_end (Directory.get?_put d l []) begin
        rw [Directory.put_put, List.nil_append, List.length_nil] at hwrite
        rcases hwrite with hw | ⟨part, hw⟩
        · simp only [hv, hw, Prod.mk.injEq, Except.ok.injEq] at h
          obtain ⟨rfl, rfl⟩ := h
          exact ⟨begin, l, hbegin, rfl, rfl, rfl⟩
        · simp only [hv, hw, Prod.mk.injEq, reduceCtorEq, and_false] at h

/-- A writer is made where a path can make a new file that can become as long as its headers. -/
theorem create_of_allows {d : Directory} {name text : Bytes} {s : Settings} {binary : BinaryHeader}
    {label : Option TapeLabel} {begin : Bytes} {l : Location}
    (hbegin : headers text binary label = .ok begin) (hvacancy : d.vacancy name = .ok l)
    (hallows : d.Allows begin.length) :
    create d name s text binary label = (d.put l begin, .ok {
      location := l, settings := s, binary, isOpen := true, position := begin.length
      broken := false, traces := [], placements := [] }) := by
  have hwrite : (d.put l []).write l 0 begin = (d.put l begin, true) := by
    have hempty : (d.put l []).Allows ([] ++ begin).length := hallows
    have h := Directory.write_of_allows (Directory.get?_put d l []) hempty
    rwa [Directory.put_put] at h
  simp only [create, hbegin, Directory.create, hvacancy, hwrite]

end Writer

/-! ### Blocks -/

/-- A trace as it lies in a file. -/
structure Block where
  header : TraceHeader
  /-- The bytes of the header. -/
  head : Bytes
  /-- What is between the header and the samples. -/
  extended : Bytes
  /-- The stored samples. -/
  samples : List Bytes

namespace Block

/-- The bytes of the samples. -/
def data (b : Block) : Bytes := b.samples.flatten

/-- The bytes of the whole trace. -/
def bytes (b : Block) : Bytes := b.head ++ b.extended ++ b.data

end Block

namespace Writer

/-- Whether a block is the one of a new trace, in the file of a writer. -/
structure Encodes (w : Writer) (t : NewTrace) (b : Block) : Prop where
  header : b.header = t.header
  head : t.header.toBytes w.binary.order w.settings = .ok b.head
  extended : b.extended = t.extended
  shape : w.checkShape t.header t.samples.length = .ok ()
  samples : ∃ encodeSample, w.encoder t = .ok encodeSample ∧
    List.Forall₂ (fun x stored => encodeSample w.binary.order x = .ok stored) t.samples b.samples

/-- Blocks depend on the binary header and the settings of a writer alone. -/
theorem Encodes.of_eq {w w' : Writer} {t : NewTrace} {b : Block} (h : w.Encodes t b)
    (hbinary : w'.binary = w.binary) (hsettings : w'.settings = w.settings) : w'.Encodes t b where
  header := h.header
  head := hbinary ▸ hsettings ▸ h.head
  extended := h.extended
  shape := by
    rw [checkShape, hbinary]
    exact h.shape
  samples := by
    obtain ⟨encodeSample, he, hs⟩ := h.samples
    refine ⟨encodeSample, ?_, hbinary ▸ hs⟩
    rw [encoder, hbinary]
    exact he

/-- A trace is encoded exactly if it has a block, and then into the bytes of it. -/
theorem encode_eq_ok_iff {w : Writer} {t : NewTrace} {head samples : Bytes} :
    w.encode t = .ok (head, samples) ↔
      ∃ b, w.Encodes t b ∧ head = b.head ++ b.extended ∧ samples = b.data := by
  simp only [encode, Except.bind_eq_ok_iff, Except.mapError_eq_ok_iff, Except.mapM_eq_ok_iff, pure,
    Except.pure, Except.ok.injEq, Prod.mk.injEq]
  constructor
  · rintro ⟨encodeSample, he, ⟨⟩, hshape, head, hhead, stored, hstored, rfl, rfl⟩
    exact ⟨⟨t.header, head, t.extended, stored⟩,
      ⟨rfl, hhead, rfl, hshape, _, he, hstored⟩, rfl, rfl⟩
  · rintro ⟨b, hb, rfl, rfl⟩
    obtain ⟨encodeSample, he, hstored⟩ := hb.samples
    exact ⟨encodeSample, he, (), hb.shape, b.head, hb.head, b.samples, hstored,
      by rw [hb.extended], rfl⟩

/-- What is written of a trace is all of it, or nothing. -/
theorem commit_cases {w : Writer} {d : Directory} {content : Bytes}
    (h : d.get? w.location = some content)
    (hp : w.position = content.length) (hb : w.broken = false) (header : TraceHeader)
    (head samples : Bytes) :
    (∃ e, w.commit d header head samples = (d, w, .error e)) ∨
      ∃ trace, w.commit d header head samples =
        (d.put w.location (content ++ (head ++ samples)), w.extended header head samples,
          .ok trace) := by
  unfold commit
  split
  · exact .inl ⟨_, rfl⟩
  · rw [hb, if_neg Bool.false_ne_true]
    have hwrite := Directory.write_end h (head ++ samples)
    rw [← hp] at hwrite
    rcases hwrite with hw | ⟨part, hw⟩
    · right
      exact ⟨_, by rw [hw]⟩
    · left
      -- what the short write left is cut away, so the file is as it was before
      have hcut := Directory.truncate_end h part
      rw [← hp] at hcut
      have hw' : { w with broken := !true } = w := by
        rw [Bool.not_true, ← hb]
      exact ⟨.traceUnwritten w.size .fileTooLarge, by simp only [hw, hcut, hw']⟩

/-- **An append is all or nothing.**  It puts the block of the trace at the end of the file, or it
fails and leaves the file and the writer as they were. -/
theorem append_cases {w : Writer} {d : Directory} {content : Bytes}
    (h : d.get? w.location = some content)
    (hp : w.position = content.length) (hb : w.broken = false) (t : NewTrace) :
    (∃ e, w.append d t = (d, w, .error e)) ∨
      ∃ b trace, w.Encodes t b ∧ w.append d t =
        (d.put w.location (content ++ b.bytes), w.extended t.header (b.head ++ b.extended) b.data,
          .ok trace) := by
  cases he : w.encode t with
  | error e =>
      left
      exact ⟨e, by rw [append, he]⟩
  | ok encoded =>
      obtain ⟨head, samples⟩ := encoded
      obtain ⟨b, henc, rfl, rfl⟩ := encode_eq_ok_iff.mp he
      rcases commit_cases h hp hb t.header (b.head ++ b.extended) b.data with ⟨e, hc⟩ | ⟨trace, hc⟩
      · left
        exact ⟨.system e, by simp only [append, he, hc, Except.mapError_error]⟩
      · right
        exact ⟨b, trace, henc, by simp only [append, he, hc, Except.mapError_ok, Block.bytes]⟩

/-- A trace that has a block is appended if the file can become that long. -/
theorem append_of_allows {w : Writer} {d : Directory} {content : Bytes}
    (h : d.get? w.location = some content)
    (hp : w.position = content.length) (hb : w.broken = false) (hopen : w.isOpen = true)
    {t : NewTrace} {b : Block} (henc : w.Encodes t b)
    (hallows : d.Allows (content ++ b.bytes).length) :
    ∃ trace, w.append d t =
      (d.put w.location (content ++ b.bytes), w.extended b.header (b.head ++ b.extended) b.data,
        .ok trace) := by
  have hencode : w.encode t = .ok (b.head ++ b.extended, b.data) :=
    encode_eq_ok_iff.mpr ⟨b, henc, rfl, rfl⟩
  have hwrite := Directory.write_of_allows h hallows
  rw [← hp, Block.bytes] at hwrite
  simp only [append, hencode, commit, hopen, hb, hwrite, henc.header, Bool.not_true,
    Bool.false_eq_true, if_false, Except.mapError_ok, Block.bytes]
  exact ⟨_, rfl⟩

end Writer

end SegY
