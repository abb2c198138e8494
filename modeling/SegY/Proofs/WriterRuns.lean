import SegY.Proofs.ScaledHeaders
import SegY.Proofs.WriterSteps

/-!
# Writing a file — whole runs

A file is written in a directory in which anything else can happen between two calls: its limit
changes, and other files come and change.  A `Session` is both, and a run is a list of `Action`s
on it.

`Session.Logged` is the invariant of all runs: the file is what it began with and one block after
the other for the traces that were appended, and the writer has a record of each.

* `Action.Asks`, `Session.asks_accepted`: which trace an action asks to append, and that the traces
  of a run are those that its actions asked for.
* `Block.isAt_traces`: the traces of blocks are where they are said to be.
* `Session.logged_of_create`: it holds when a writer was made.
* `Session.Logged.perform`, `Session.Logged.run`: an action keeps it, and so does a run.
* `Session.Logged.run_of_allows`: traces that have blocks are all appended while there is room.
-/

namespace SegY

/-- A file that is being written, and the directory that it is in. -/
structure Session where
  directory : Directory
  writer : Writer

/-- What can happen while a file is written. -/
inductive Action where
  | append (t : NewTrace)
  | appendScaled {t : SampleType} (new : NewTrace) (c : CoordinateScalar t) (x y : t.Word)
  /-- Every write is through at once, so there is nothing to do. -/
  | flush
  | close
  /-- Files can become longer or less long from now on. -/
  | limit (n : Option Nat)
  /-- A file is made or written by someone else. -/
  | elsewhere (l : Location) (content : Bytes)

namespace Action

/-- The trace that an action asks to append, as it is to be written. -/
def request? : Action → Option NewTrace
  | append t => some t
  | appendScaled new c x y => do
    let cdpX ← c.stored? x
    let cdpY ← c.stored? y
    return { new with header := new.header.withEnsemble c.scalar cdpX cdpY }
  | _ => none

/-- Whether an action asks to append a trace.  A scaled append has the coordinates in the header,
divided by the multiplier, and its scalar; everything else is as it was given. -/
inductive Asks : Action → NewTrace → Prop where
  | append (t : NewTrace) : Asks (.append t) t
  | appendScaled {t : SampleType} {new : NewTrace} {c : CoordinateScalar t} {x y : t.Word}
      {cdpX cdpY : Int32} (hx : c.Stores x cdpX) (hy : c.Stores y cdpY) :
      Asks (.appendScaled new c x y)
        { new with header := new.header.withEnsemble c.scalar cdpX cdpY }

/-- What is asked for is what the description of the action says. -/
theorem asks_of_request? {a : Action} {t : NewTrace} (h : a.request? = some t) : a.Asks t := by
  cases a with
  | append t' =>
      cases h
      exact .append t
  | appendScaled new c x y =>
      obtain ⟨cdpX, hx, h⟩ := Option.bind_eq_some_iff.mp h
      obtain ⟨cdpY, hy, h⟩ := Option.bind_eq_some_iff.mp h
      cases h
      exact .appendScaled (CoordinateScalar.stores_of_stored? hx)
        (CoordinateScalar.stores_of_stored? hy)
  | flush | close | limit _ | elsewhere _ _ => cases h

end Action

namespace Session

/-- The session after an action, and whether the action appended a trace. -/
def perform (σ : Session) : Action → Session × Bool
  | .append t =>
    let (d, w, result) := σ.writer.append σ.directory t
    (⟨d, w⟩, result.isOk)
  | .appendScaled new c x y =>
    let (d, w, result) := σ.writer.appendScaled σ.directory new c x y
    (⟨d, w⟩, result.isOk)
  | .flush => (σ, false)
  | .close => ({ σ with writer := σ.writer.close }, false)
  | .limit n => ({ σ with directory := { σ.directory with limit := n } }, false)
  | .elsewhere l content => ({ σ with directory := σ.directory.put l content }, false)

/-- The session after some actions. -/
def run (σ : Session) : List Action → Session
  | [] => σ
  | a :: rest => run (σ.perform a).1 rest

/-- The trace that an action appends, if it does. -/
def appended? (σ : Session) (a : Action) : Option NewTrace :=
  if (σ.perform a).2 then a.request? else none

/-- The actions that append a trace, in order. -/
def accepted (σ : Session) : List Action → List Action
  | [] => []
  | a :: rest =>
    if (σ.perform a).2 then a :: accepted (σ.perform a).1 rest
    else accepted (σ.perform a).1 rest

/-- The traces that actions append, in order. -/
def appended (σ : Session) : List Action → List NewTrace
  | [] => []
  | a :: rest => (σ.appended? a).toList ++ appended (σ.perform a).1 rest

/-- A scaled append does nothing, or it appends the trace that it asks for. -/
theorem perform_appendScaled_cases (σ : Session) {t : SampleType} (new : NewTrace)
    (c : CoordinateScalar t) (x y : t.Word) :
    σ.perform (.appendScaled new c x y) = (σ, false) ∨
      ∃ trace, (Action.appendScaled new c x y).request? = some trace ∧
        σ.perform (.appendScaled new c x y) = σ.perform (.append trace) := by
  cases hh : Writer.scaledHeader new.header c x y with
  | error e =>
      left
      simp only [perform, Writer.appendScaled, hh]
      rfl
  | ok header =>
      obtain ⟨cdpX, cdpY, hx, hy, rfl⟩ := Writer.scaledHeader_eq_ok_iff.mp hh
      refine .inr ⟨{ new with header := new.header.withEnsemble c.scalar cdpX cdpY }, ?_, ?_⟩
      · simp only [Action.request?, hx, hy]
        rfl
      · simp only [perform, Writer.appendScaled, hh]

theorem exists_request_of_perform {σ : Session} {a : Action} (h : (σ.perform a).2 = true) :
    ∃ trace, a.request? = some trace := by
  cases a with
  | append t => exact ⟨t, rfl⟩
  | appendScaled new c x y =>
      rcases σ.perform_appendScaled_cases new c x y with hp | ⟨trace, hr, -⟩
      · rw [hp] at h
        cases h
      · exact ⟨trace, hr⟩
  | flush | close | limit _ | elsewhere _ _ => cases h

/-- **The traces of a run are those that were asked for**, one for each action that appends one, in
order. -/
theorem asks_accepted (σ : Session) (actions : List Action) :
    List.Forall₂ Action.Asks (σ.accepted actions) (σ.appended actions) := by
  induction actions generalizing σ with
  | nil => exact .nil
  | cons a rest ih =>
      rw [accepted, appended, appended?]
      split
      · next h =>
        obtain ⟨trace, hr⟩ := exists_request_of_perform h
        rw [hr]
        exact .cons (Action.asks_of_request? hr) (ih _)
      · exact ih _

end Session

/-! ### Where blocks are -/

namespace Block

/-- The length of what is before the samples. -/
def offset (b : Block) : Nat := b.head.length + b.extended.length

theorem length_bytes (b : Block) : b.bytes.length = b.offset + b.data.length := by
  simp only [bytes, offset, List.length_append]

/-- The traces of blocks that begin at a position. -/
def traces (pos : Nat) : List Block → List Trace
  | [] => []
  | b :: rest => ⟨b.header, pos + b.offset, b.data.length⟩ :: traces (pos + b.bytes.length) rest

/-- Where blocks are that begin at a position, by their numbers from `i` on. -/
def placements (pos i : Nat) : List Block → List (Nat × Placement)
  | [] => []
  | b :: rest =>
    (i, ⟨i, pos, pos + b.offset, b.bytes.length⟩) :: placements (pos + b.bytes.length) (i + 1) rest

@[simp] theorem length_traces (pos : Nat) (blocks : List Block) :
    (traces pos blocks).length = blocks.length := by
  induction blocks generalizing pos with
  | nil => rfl
  | cons b rest ih => simp only [traces, List.length_cons, ih]

theorem traces_concat (pos : Nat) (blocks : List Block) (b : Block) :
    traces pos (blocks ++ [b]) =
      traces pos blocks ++
        [⟨b.header, pos + (blocks.flatMap bytes).length + b.offset, b.data.length⟩] := by
  induction blocks generalizing pos with
  | nil => rfl
  | cons c rest ih =>
      simp only [List.cons_append, traces, ih, List.flatMap_cons, List.length_append, Nat.add_assoc]

theorem placements_concat (pos i : Nat) (blocks : List Block) (b : Block) :
    placements pos i (blocks ++ [b]) =
      placements pos i blocks ++
        [(i + blocks.length, ⟨i + blocks.length, pos + (blocks.flatMap bytes).length,
          pos + (blocks.flatMap bytes).length + b.offset, b.bytes.length⟩)] := by
  induction blocks generalizing pos i with
  | nil => rfl
  | cons c rest ih =>
      have hi : i + 1 + rest.length = i + (rest.length + 1) := by omega
      simp only [List.cons_append, placements, ih, List.flatMap_cons, List.length_append,
        List.length_cons, Nat.add_assoc, hi]

/-- Whether a trace is that of a block, and the samples of the block are where it is. -/
structure IsAt (content : Bytes) (b : Block) (found : Trace) : Prop where
  header : found.header = b.header
  length : found.length = b.data.length
  fits : found.start + found.length ≤ content.length
  slice : Bytes.slice content found.start found.length = b.data

/-- The traces of blocks that lie one after the other are where they are said to be. -/
theorem isAt_traces (before : Bytes) (blocks : List Block) :
    List.Forall₂ (IsAt (before ++ blocks.flatMap bytes)) blocks (traces before.length blocks) := by
  induction blocks generalizing before with
  | nil => exact .nil
  | cons b rest ih =>
      have hlater : before ++ (b :: rest).flatMap bytes =
          before ++ b.bytes ++ rest.flatMap bytes := by
        rw [List.flatMap_cons, List.append_assoc]
      have hdata : before ++ (b :: rest).flatMap bytes =
          (before ++ b.head ++ b.extended) ++ (b.data ++ rest.flatMap bytes) := by
        rw [hlater, bytes]
        simp only [List.append_assoc]
      have hstart : before.length + b.offset = (before ++ b.head ++ b.extended).length := by
        rw [List.length_append, List.length_append, Nat.add_assoc]
        rfl
      have hrest := ih (before ++ b.bytes)
      rw [List.length_append, ← hlater] at hrest
      refine .cons ⟨rfl, rfl, ?_, ?_⟩ hrest
      · simp only [hstart, hdata, List.length_append]
        omega
      · rw [hstart, hdata]
        exact Bytes.slice_append_mid _ _ _

end Block

/-! ### The invariant -/

namespace Session

/-- The file of a session, and what the writer knows of it: after what writer `w` began with there
is one block after the other. -/
structure Logged (w : Writer) (begin : Bytes) (blocks : List Block) (σ : Session) : Prop where
  location : σ.writer.location = w.location
  settings : σ.writer.settings = w.settings
  binary : σ.writer.binary = w.binary
  content : σ.directory.get? w.location = some (begin ++ blocks.flatMap Block.bytes)
  position : σ.writer.position = (begin ++ blocks.flatMap Block.bytes).length
  whole : σ.writer.broken = false
  traces : σ.writer.traces = Block.traces begin.length blocks
  placements : σ.writer.placements = Block.placements begin.length 0 blocks

/-- A new file holds its headers, and there are no records yet. -/
theorem logged_of_create {d d' : Directory} {name text : Bytes} {s : Settings}
    {binary : BinaryHeader} {label : Option TapeLabel} {w : Writer}
    (h : Writer.create d name s text binary label = (d', .ok w)) :
    ∃ begin, Writer.headers text binary label = .ok begin ∧ Logged w begin [] ⟨d', w⟩ := by
  obtain ⟨begin, l, hbegin, -, rfl, rfl⟩ := Writer.of_create h
  have hcontent : begin ++ [].flatMap Block.bytes = begin := by
    rw [List.flatMap_nil, List.append_nil]
  refine ⟨begin, hbegin, rfl, rfl, rfl, ?_, ?_, rfl, rfl, rfl⟩
  · rw [hcontent]
    exact Directory.get?_put _ _ _
  · rw [hcontent]

/-- With a block behind what is in the file, and a record of it, the invariant holds again. -/
theorem Logged.extended {w : Writer} {begin : Bytes} {blocks : List Block} {σ : Session}
    (h : σ.Logged w begin blocks) (b : Block) :
    Logged w begin (blocks ++ [b])
      ⟨σ.directory.put w.location (begin ++ blocks.flatMap Block.bytes ++ b.bytes),
        σ.writer.extended b.header (b.head ++ b.extended) b.data⟩ := by
  have hcontent : begin ++ (blocks ++ [b]).flatMap Block.bytes =
      begin ++ blocks.flatMap Block.bytes ++ b.bytes := by
    simp only [List.flatMap_append, List.flatMap_singleton, List.append_assoc]
  have hoffset : (b.head ++ b.extended).length = b.offset := List.length_append
  have hsize : σ.writer.size = blocks.length := by
    rw [Writer.size, h.traces, Block.length_traces]
  refine ⟨h.location, h.settings, h.binary, ?_, ?_, h.whole, ?_, ?_⟩
  · rw [hcontent]
    exact Directory.get?_put _ _ _
  · rw [hcontent, List.length_append, ← h.position, b.length_bytes, ← hoffset]
    rfl
  · simp only [Writer.extended, h.traces, h.position, hoffset, Block.traces_concat,
      List.length_append]
  · simp only [Writer.extended, h.placements, h.position, hoffset, hsize, Block.placements_concat,
      List.length_append, b.length_bytes, Nat.zero_add]

theorem perform_append_of_ok {σ : Session} {t : NewTrace} {d : Directory} {w : Writer}
    {trace : Trace} (h : σ.writer.append σ.directory t = (d, w, .ok trace)) :
    σ.perform (.append t) = (⟨d, w⟩, true) := by
  simp only [perform, h]
  rfl

/-- An append keeps the invariant, with one more block if it appends the trace. -/
theorem Logged.append {w : Writer} {begin : Bytes} {blocks : List Block} {σ : Session}
    (h : σ.Logged w begin blocks) (t : NewTrace) :
    ∃ more, List.Forall₂ w.Encodes (σ.appended? (.append t)).toList more ∧
      Logged w begin (blocks ++ more) (σ.perform (.append t)).1 := by
  have hcontent := h.content
  rw [← h.location] at hcontent
  rcases Writer.append_cases hcontent h.position h.whole t with ⟨e, ha⟩ | ⟨b, trace, hb, ha⟩
  · have hp : σ.perform (.append t) = (σ, false) := by
      simp only [perform, ha]
      rfl
    refine ⟨[], ?_, ?_⟩
    · rw [appended?, hp]
      exact .nil
    · rwa [hp, List.append_nil]
  · have hp := perform_append_of_ok ha
    rw [h.location, ← hb.header] at hp
    refine ⟨[b], ?_, ?_⟩
    · rw [appended?, hp]
      exact .cons (hb.of_eq h.binary.symm h.settings.symm) .nil
    · rw [hp]
      exact h.extended b

/-- **An action keeps the invariant.**  The file grows by a block if the action appends a trace,
and stays as it is if not, unless the action writes to it behind the back of the writer. -/
theorem Logged.perform {w : Writer} {begin : Bytes} {blocks : List Block} {σ : Session}
    (h : σ.Logged w begin blocks) (a : Action)
    (ha : ∀ l content, a = .elsewhere l content → l ≠ w.location) :
    ∃ more, List.Forall₂ w.Encodes (σ.appended? a).toList more ∧
      Logged w begin (blocks ++ more) (σ.perform a).1 := by
  have unchanged : ∀ {σ' : Session},
      σ'.Logged w begin blocks → σ'.Logged w begin (blocks ++ []) := fun h' => by
    rwa [List.append_nil]
  cases a with
  | append t => exact h.append t
  | appendScaled new c x y =>
      rcases σ.perform_appendScaled_cases new c x y with hp | ⟨trace, hr, hp⟩
      · refine ⟨[], ?_, ?_⟩
        · rw [appended?, hp]
          exact .nil
        · rw [hp]
          exact unchanged h
      · -- it is an append of the trace with the other header
        rw [appended?, hp, hr]
        exact h.append trace
  | flush => exact ⟨[], .nil, unchanged h⟩
  | close =>
      refine ⟨[], .nil, unchanged ?_⟩
      exact ⟨h.location, h.settings, h.binary, h.content, h.position, h.whole, h.traces,
        h.placements⟩
  | limit n =>
      refine ⟨[], .nil, unchanged ?_⟩
      exact ⟨h.location, h.settings, h.binary, h.content, h.position, h.whole, h.traces,
        h.placements⟩
  | elsewhere l content =>
      refine ⟨[], .nil, unchanged ?_⟩
      refine ⟨h.location, h.settings, h.binary, ?_, h.position, h.whole, h.traces, h.placements⟩
      show (σ.directory.put l content).get? w.location = _
      rw [Directory.get?_put_of_ne (ha l content rfl).symm, h.content]

/-- **A run keeps the invariant.**  The blocks that it adds are those of the traces that it
appends. -/
theorem Logged.run {w : Writer} {begin : Bytes} {blocks : List Block} {σ : Session}
    (h : σ.Logged w begin blocks) (actions : List Action)
    (ha : ∀ l content, Action.elsewhere l content ∈ actions → l ≠ w.location) :
    ∃ more, List.Forall₂ w.Encodes (σ.appended actions) more ∧
      Logged w begin (blocks ++ more) (σ.run actions) := by
  induction actions generalizing σ blocks with
  | nil => exact ⟨[], .nil, by rwa [List.append_nil]⟩
  | cons a rest ih =>
      -- the invariant after `a` is the one that `ih` starts from, with the blocks of `a` among
      -- the old ones
      obtain ⟨first, hfirst, h'⟩ :=
        h.perform a fun l content e => ha l content (e ▸ List.mem_cons_self)
      obtain ⟨later, hlater, hrun⟩ :=
        ih h' fun l content hm => ha l content (List.mem_cons_of_mem _ hm)
      refine ⟨first ++ later, ?_, ?_⟩
      · exact List.rel_append hfirst hlater
      · rwa [← List.append_assoc]

/-- **Traces that have blocks are all appended**, one after the other, if the file can become as
long as they make it. -/
theorem Logged.run_of_allows {w : Writer} {begin : Bytes} {blocks : List Block} {σ : Session}
    (h : σ.Logged w begin blocks) (hopen : σ.writer.isOpen = true) {ts : List NewTrace}
    {more : List Block} (hmore : List.Forall₂ w.Encodes ts more)
    (hallows : σ.directory.Allows (begin ++ (blocks ++ more).flatMap Block.bytes).length) :
    σ.appended (ts.map .append) = ts ∧
      Logged w begin (blocks ++ more) (σ.run (ts.map .append)) := by
  induction hmore generalizing σ blocks with
  | nil => exact ⟨rfl, by rwa [List.append_nil]⟩
  | @cons t b rest later hb _ ih =>
      have hcontent := h.content
      rw [← h.location] at hcontent
      -- the file after this trace is a part of the file after all of them
      have hlater : begin ++ (blocks ++ b :: later).flatMap Block.bytes =
          begin ++ blocks.flatMap Block.bytes ++ b.bytes ++ later.flatMap Block.bytes := by
        simp only [List.flatMap_append, List.flatMap_cons, List.append_assoc]
      have hnext : σ.directory.Allows (begin ++ blocks.flatMap Block.bytes ++ b.bytes).length := by
        refine hallows.mono ?_
        rw [hlater]
        exact (List.prefix_append _ _).length_le
      obtain ⟨trace, ha⟩ := Writer.append_of_allows hcontent h.position h.whole hopen
        (hb.of_eq h.binary h.settings) hnext
      have hp := perform_append_of_ok ha
      rw [h.location] at hp
      have hsplit : blocks ++ [b] ++ later = blocks ++ b :: later := by
        rw [List.append_assoc, List.singleton_append]
      obtain ⟨happended, hrun⟩ := ih (h.extended b) hopen (hsplit ▸ hallows)
      rw [List.map_cons, appended, appended?, Session.run, hp, if_pos rfl]
      refine ⟨?_, hsplit ▸ hrun⟩
      exact congrArg (t :: ·) happended

end Session

end SegY
