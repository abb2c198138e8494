import SegY.Proofs.ReachableSettings
import SegY.Proofs.TraceCodec
import SegY.Proofs.WriterRuns

/-!
# Writing a file — the writer keeps its books

A writer tells of each trace where it is, and twice: in the list of traces and in the table of
placements. Both are true to the file at every point of a run, also after calls that failed or
were cut short.

* `Block.start`: where a block begins, by the blocks before it.
* `Session.run_bookkept`: what a writer tells after a run, and what the file holds then
  (`Bookkept`).
-/

namespace SegY

namespace Block

/-- Where block `k` begins, if the first one begins at `pos`. -/
def start (pos : Nat) (blocks : List Block) (k : Nat) : Nat :=
  pos + ((blocks.take k).flatMap bytes).length

theorem start_cons_succ (pos : Nat) (b : Block) (rest : List Block) (k : Nat) :
    start pos (b :: rest) (k + 1) = start (pos + b.bytes.length) rest k := by
  simp only [start, List.take_succ_cons, List.flatMap_cons, List.length_append, Nat.add_assoc]

/-- Each block begins where the one before it ends. -/
theorem start_succ {pos : Nat} {blocks : List Block} {k : Nat} {b : Block}
    (h : blocks[k]? = some b) :
    start pos blocks (k + 1) = start pos blocks k + b.bytes.length := by
  simp only [start, List.take_add_one, h, Option.toList_some, List.flatMap_append,
    List.flatMap_singleton, List.length_append, Nat.add_assoc]

theorem start_length (pos : Nat) (blocks : List Block) :
    start pos blocks blocks.length = pos + (blocks.flatMap bytes).length := by
  rw [start, List.take_length]

theorem getElem?_traces (pos : Nat) (blocks : List Block) (k : Nat) :
    (traces pos blocks)[k]? =
      blocks[k]?.map fun b => ⟨b.header, start pos blocks k + b.offset, b.data.length⟩ := by
  induction blocks generalizing pos k with
  | nil => rfl
  | cons b rest ih =>
      cases k with
      | zero => rfl
      | succ k =>
          rw [traces, List.getElem?_cons_succ, List.getElem?_cons_succ, ih, start_cons_succ]

theorem getElem?_placements (pos i : Nat) (blocks : List Block) (k : Nat) :
    (placements pos i blocks)[k]? = blocks[k]?.map fun b =>
      (i + k, ⟨i + k, start pos blocks k, start pos blocks k + b.offset, b.bytes.length⟩) := by
  induction blocks generalizing pos i k with
  | nil => rfl
  | cons b rest ih =>
      cases k with
      | zero => rfl
      | succ k =>
          have hi : i + 1 + k = i + (k + 1) := by omega
          rw [placements, List.getElem?_cons_succ, List.getElem?_cons_succ, ih, start_cons_succ, hi]

theorem map_fst_placements (pos i : Nat) (blocks : List Block) :
    (placements pos i blocks).map Prod.fst = List.range' i blocks.length := by
  induction blocks generalizing pos i with
  | nil => rfl
  | cons b rest ih => rw [placements, List.map_cons, ih, List.length_cons, List.range'_succ]

/-- The placements of blocks, by their numbers. -/
theorem mem_placements_iff {pos : Nat} {blocks : List Block} {k : Nat} {p : Placement} :
    (k, p) ∈ placements pos 0 blocks ↔ ∃ b, blocks[k]? = some b ∧
      p = ⟨k, start pos blocks k, start pos blocks k + b.offset, b.bytes.length⟩ := by
  rw [List.mem_iff_getElem?]
  simp only [getElem?_placements, Nat.zero_add, Option.map_eq_some_iff, Prod.mk.injEq]
  constructor
  · rintro ⟨j, b, hb, rfl, rfl⟩
    exact ⟨b, hb, rfl⟩
  · rintro ⟨b, hb, rfl⟩
    exact ⟨k, b, hb, rfl, rfl⟩

end Block

namespace Session

/-- What the writer of a session tells of the file, which has these blocks after what it begins
with. -/
structure Bookkept (begin : Bytes) (blocks : List Block) (σ : Session) : Prop where
  /-- The file is what it begins with and the blocks, one after the other. -/
  content : σ.directory.get? σ.writer.location = some (begin ++ (blocks.map Block.bytes).flatten)
  size : σ.writer.size = blocks.length
  empty : σ.writer.size = 0 → σ.directory.get? σ.writer.location = some begin
  /-- The table has an entry for each trace and no other. -/
  keys : σ.writer.placements.map Prod.fst = List.range σ.writer.size
  index : ∀ {i p}, (i, p) ∈ σ.writer.placements → p.index = i
  first : ∀ {p}, (0, p) ∈ σ.writer.placements → p.start = begin.length
  next : ∀ {i p q}, (i, p) ∈ σ.writer.placements → (i + 1, q) ∈ σ.writer.placements →
    q.start = p.start + p.length
  /-- The last trace ends where the file does. -/
  last : ∀ {i p}, (i, p) ∈ σ.writer.placements → i + 1 = σ.writer.size →
    p.start + p.length = (begin ++ (blocks.map Block.bytes).flatten).length
  /-- The list of traces says the same as the table. -/
  traces : ∀ {i t}, σ.writer.traces[i]? = some t → ∃ b p, blocks[i]? = some b ∧
    (i, p) ∈ σ.writer.placements ∧ t.header = b.header ∧ t.start = p.dataStart ∧
      p.dataStart = p.start + HeaderKind.trace.length + b.extended.length ∧
      t.start + t.length = p.start + p.length

/-- What is logged of blocks whose headers have the right length is in the books. -/
theorem Logged.bookkept {w : Writer} {begin : Bytes} {blocks : List Block} {σ : Session}
    (h : σ.Logged w begin blocks) (hhead : ∀ b ∈ blocks, b.head.length = HeaderKind.trace.length) :
    σ.Bookkept begin blocks := by
  have hsize : σ.writer.size = blocks.length := by
    rw [Writer.size, h.traces, Block.length_traces]
  have hmem {i : Nat} {p : Placement} (hp : (i, p) ∈ σ.writer.placements) :=
    Block.mem_placements_iff.mp (h.placements ▸ hp)
  have hcontent :
      begin ++ (blocks.map Block.bytes).flatten = begin ++ blocks.flatMap Block.bytes := by
    rw [List.flatMap_def]
  constructor
  case content => rw [h.location, hcontent, h.content]
  case size => exact hsize
  case empty =>
    intro h0
    have hnil : blocks = [] := List.eq_nil_of_length_eq_zero (hsize ▸ h0)
    rw [h.location, h.content, hnil, List.flatMap_nil, List.append_nil]
  case keys => rw [h.placements, Block.map_fst_placements, hsize, List.range_eq_range']
  case index =>
    intro i p hp
    obtain ⟨b, -, rfl⟩ := hmem hp
    rfl
  case first =>
    intro p hp
    obtain ⟨b, -, rfl⟩ := hmem hp
    rfl
  case next =>
    intro i p q hp hq
    obtain ⟨b, hb, rfl⟩ := hmem hp
    obtain ⟨c, -, rfl⟩ := hmem hq
    exact Block.start_succ hb
  case last =>
    intro i p hp hi
    obtain ⟨b, hb, rfl⟩ := hmem hp
    rw [hcontent, List.length_append, ← Block.start_length, ← hsize, ← hi, Block.start_succ hb]
  case traces =>
    intro i t ht
    rw [h.traces, Block.getElem?_traces, Option.map_eq_some_iff] at ht
    obtain ⟨b, hb, rfl⟩ := ht
    have hoffset : b.offset = HeaderKind.trace.length + b.extended.length := by
      rw [Block.offset, hhead b (List.mem_of_getElem? hb)]
    refine ⟨b, _, hb, h.placements ▸ Block.mem_placements_iff.mpr ⟨b, hb, rfl⟩, rfl, rfl, ?_, ?_⟩
    · simp only [hoffset, Nat.add_assoc]
    · simp only [b.length_bytes, Nat.add_assoc]

/-- **A writer keeps its books.**  Make a file with whatever headers and settings, append traces
to it, with calls that fail and limits that cut writes short anywhere among them: unless someone
else writes to the file, it is its headers and the blocks of the traces that were appended, and
the writer says of each where it is. -/
theorem run_bookkept {d d' : Directory} {name text : Bytes} {s : Settings} {binary : BinaryHeader}
    {label : Option TapeLabel} {w : Writer} (hs : s.Reachable)
    (hw : Writer.create d name s text binary label = (d', .ok w)) (actions : List Action)
    (hothers : ∀ l content, Action.elsewhere l content ∈ actions → l ≠ w.location) :
    ∃ start blocks, Writer.labelBytes label = .ok start ∧
      start.length = (if label.isSome then 128 else 0) ∧ (TextHeader.pad text).length = 3200 ∧
      binary.toBytes.length = 400 ∧
      List.Forall₂ w.Encodes (appended ⟨d', w⟩ actions) blocks ∧
      Bookkept (start ++ TextHeader.pad text ++ binary.toBytes) blocks (run ⟨d', w⟩ actions) := by
  obtain ⟨begin, hbegin, hlogged⟩ := logged_of_create hw
  obtain ⟨htext, start, hstart, rfl⟩ := Writer.headers_eq_ok_iff.mp hbegin
  obtain ⟨blocks, hblocks, hrun⟩ := hlogged.run actions hothers
  rw [List.nil_append] at hrun
  have hsettings : w.settings = s := by
    obtain ⟨_, _, -, -, -, rfl⟩ := Writer.of_create hw
    rfl
  have hhead : ∀ b ∈ blocks, b.head.length = HeaderKind.trace.length :=
    hblocks.forall_right fun hb => TraceHeader.length_of_toBytes (hsettings ▸ hs.byte_le) hb.head
  exact ⟨start, blocks, hstart, Writer.length_of_labelBytes hstart, TextHeader.length_pad htext,
    binary.length_toBytes, hblocks, hrun.bookkept hhead⟩

/-- A trace of one sample with two bytes before it. -/
def shortTrace : NewTrace where
  header := .blank
  extended := [1, 2]
  type := .int8
  samples := [5]
  lossless := true

/-- The first of two traces is cut short. -/
def shortRun : List Action :=
  [.limit (some 3700), .append shortTrace, .limit none, .elsewhere ⟨.root, [0x61]⟩ [7],
    .appendScaled shortTrace (t := .int32) ⟨10, 10⟩ 120 130, .flush, .close]

/-- The books of a run that appends a trace. -/
theorem run_bookkept_shortRun :
    let binary : BinaryHeader := { BinaryHeader.blank.withSamples 1 with format := .int8 }
    ∃ d w start blocks, Writer.create {} [0x61] {} [0x43] binary none = (d, .ok w) ∧
      (run ⟨d, w⟩ shortRun).writer.size = 1 ∧
      List.Forall₂ w.Encodes (appended ⟨d, w⟩ shortRun) blocks ∧
      Bookkept (start ++ TextHeader.pad [0x43] ++ binary.toBytes) blocks (run ⟨d, w⟩ shortRun) := by
  intro binary
  have hrun : (match Writer.create {} [0x61] {} [0x43] binary none with
      | (d, .ok w) => (run ⟨d, w⟩ shortRun).writer.size == 1 && w.location == ⟨.here, [0x61]⟩
      | (_, .error _) => false) = true := by
    decide +kernel
  split at hrun
  · next d w hw =>
    rw [Bool.and_eq_true, beq_iff_eq, beq_iff_eq] at hrun
    obtain ⟨hsize, hl⟩ := hrun
    have hothers : ∀ l content, Action.elsewhere l content ∈ shortRun → l ≠ w.location := by
      intro l content h
      simp only [shortRun, List.mem_cons, Action.elsewhere.injEq, reduceCtorEq, List.not_mem_nil,
        or_false, false_or] at h
      rw [h.1, hl]
      decide
    obtain ⟨start, blocks, -, -, -, -, hblocks, hbooks⟩ := run_bookkept .default hw shortRun hothers
    exact ⟨d, w, start, blocks, hw, hsize, hblocks, hbooks⟩
  · cases hrun

end Session

end SegY
