import SegY.Proofs.ReadRanges

/-!
# Opening a file — nothing else is read

The ranges that are kept of a reading are all of the file that its value depends on, apart from the
size.  Take another file of that size, with the same bytes in these ranges and any bytes elsewhere:
it is read in the same ranges, and opened to the same.

Two readings are followed side by side, as long as the files agree where the first one reads
(`Reading.Follows`).  The values are related and not always equal, because what is found at a
position of a file, and what a file is opened to, speak of the file itself.

* `TraceHeader.follows_reading`: a trace header.
* `Scan.follows_readingWalk`: the traces, from one record to the next.
* `File.ofImage_of_agreesOn`: a file.
-/

namespace SegY

/-- Whether another file has the same bytes in these ranges. -/
def Image.AgreesOn (image other : Image) (ranges : List (Nat × Nat)) : Prop :=
  ∀ r ∈ ranges, other.slice r.1 r.2 = image.slice r.1 r.2

namespace Reading

variable {α β γ δ ε ι : Type}

/-- Whether a reading of another file follows that of a file.  If the other file agrees with the
first one wherever that is read, it is read in the same ranges, and the values are related. -/
def Follows (image other : Image) (R : α → β → Prop) (x : Reading α) (y : Reading β) : Prop :=
  image.AgreesOn other x.ranges → y.ranges = x.ranges ∧ R x.value y.value

/-! ### Rules -/

section Rules

variable {image other : Image} {R : α → β → Prop} {S : γ → δ → Prop}

theorem follows_pure {a : α} {b : β} (h : R a b) : Follows image other R (pure a) (pure b) :=
  fun _ => ⟨rfl, h⟩

theorem follows_range {start length : Nat} :
    Follows image other Eq (image.reading start length) (other.reading start length) :=
  fun h => ⟨rfl, (h _ List.mem_cons_self).symm⟩

theorem Follows.bind {x : Reading α} {y : Reading β} {f : α → Reading γ} {g : β → Reading δ}
    (h : Follows image other R x y)
    (hfg : ∀ a b, R a b → Follows image other S (f a) (g b)) :
    Follows image other S (x >>= f) (y >>= g) := by
  intro hagree
  obtain ⟨hranges, hvalue⟩ := h fun r hr => hagree r (List.mem_append_left _ hr)
  obtain ⟨hranges', hvalue'⟩ := hfg _ _ hvalue fun r hr => hagree r (List.mem_append_right _ hr)
  exact ⟨congr (congrArg _ hranges) hranges', hvalue'⟩

/-- If the first values are equal, what comes after them is compared for each of them. -/
theorem Follows.bind_eq {x y : Reading α} {f : α → Reading γ} {g : α → Reading δ}
    (h : Follows image other Eq x y) (hfg : ∀ a, Follows image other S (f a) (g a)) :
    Follows image other S (x >>= f) (y >>= g) :=
  h.bind fun a _ hab => hab ▸ hfg a

theorem Follows.map {x y : Reading α} (h : Follows image other Eq x y) (f : α → γ) :
    Follows image other Eq (f <$> x) (f <$> y) :=
  h.bind_eq fun _ => follows_pure rfl

theorem Follows.ite {c d : Prop} [Decidable c] [Decidable d] (hcd : c ↔ d) {x x' : Reading α}
    {y y' : Reading β} (h : Follows image other R x y) (h' : Follows image other R x' y') :
    Follows image other R (if c then x else x') (if d then y else y') := by
  by_cases hc : c
  · rwa [if_pos hc, if_pos (hcd.mp hc)]
  · rwa [if_neg hc, if_neg (mt hcd.mpr hc)]

theorem Follows.unlessSet {x y : Reading α} (h : Follows image other Eq x y)
    (setting : Option α) :
    Follows image other Eq (Reading.unlessSet setting x) (Reading.unlessSet setting y) := by
  cases setting with
  | some value => exact follows_pure rfl
  | none => exact h

theorem Follows.andThen {T : Except ε γ → Except ε δ → Prop} (hT : ∀ e, T (.error e) (.error e))
    {x y : Reading (Except ε α)} {f : α → Reading (Except ε γ)} {g : α → Reading (Except ε δ)}
    (h : Follows image other Eq x y) (hfg : ∀ a, Follows image other T (f a) (g a)) :
    Follows image other T (x.andThen f) (y.andThen g) := by
  refine h.bind_eq fun a => ?_
  cases a with
  | ok a => exact hfg a
  | error e => exact follows_pure (hT e)

theorem follows_each {β : ι → Type} {all : List ι} (hall : ∀ i, i ∈ all)
    {x y : (i : ι) → Reading (β i)} (h : ∀ i, Follows image other Eq (x i) (y i)) :
    Follows image other Eq (each all x) (each all y) := by
  intro hagree
  have heach : ∀ i, (y i).ranges = (x i).ranges ∧ (x i).value = (y i).value := fun i =>
    h i fun r hr => hagree r (List.mem_flatMap.mpr ⟨i, hall i, hr⟩)
  constructor
  · exact List.flatMap_congr fun i _ => (heach i).1
  · exact funext fun i => (heach i).2

theorem follows_collect {all : List ι} {x y : ι → Reading α}
    (h : ∀ i, Follows image other Eq (x i) (y i)) :
    Follows image other Eq (collect all x) (collect all y) := by
  intro hagree
  have heach : ∀ i ∈ all, (y i).ranges = (x i).ranges ∧ (x i).value = (y i).value := fun i hi =>
    h i fun r hr => hagree r (List.mem_flatMap.mpr ⟨i, hi, hr⟩)
  constructor
  · exact List.flatMap_congr fun i hi => (heach i hi).1
  · exact List.map_congr_left fun i hi => (heach i hi).2

end Rules

end Reading

open Reading

/-! ### The headers at the start of a file -/

section Headers

variable {image other : Image}

theorem TapeLabel.follows_readingPresent (hsize : other.size = image.size) :
    Follows image other Eq (readingPresent image) (readingPresent other) := by
  refine .ite (by rw [hsize]) (follows_pure rfl) (follows_range.bind_eq fun first => ?_)
  exact .ite .rfl (follows_pure rfl) (follows_range.bind_eq fun c => follows_pure rfl)

variable (image other)

theorem TapeLabel.follows_reading :
    Follows image other Eq (reading image) (reading other) := by
  refine (follows_range.map _).bind_eq fun digits => ?_
  refine .ite .rfl (follows_pure rfl) (Follows.bind_eq ?_ fun field => follows_pure rfl)
  exact follows_each LabelField.mem_all fun f => follows_range.map _

theorem BinaryHeader.follows_reading (pos : Nat) (s : Settings) :
    Follows image other Eq (reading image pos s) (reading other pos s) := by
  refine ((follows_range.map _).unlessSet _).bind_eq fun order => ?_
  refine (follows_each BinaryField.mem_all fun f => (follows_range.map _).unlessSet _).bind_eq
    fun field => ?_
  refine ((follows_range.map _).unlessSet _).bind_eq fun format => ?_
  exact follows_range.bind_eq fun flag => follows_pure rfl

theorem TraceHeader.follows_readingLines (pos : Nat) (order : ByteOrder) (s : Settings)
    (position : Int) (field : (f : TraceField) → f.Value) :
    Follows image other Eq (readingLines image pos order s position field)
      (readingLines other pos order s position field) := by
  rw [readingLines, readingLines]
  cases s.dimX with
  | some dim => exact follows_pure rfl
  | none =>
      refine (follows_range.map _).bind_eq fun inline => ?_
      exact (follows_range.map _).bind_eq fun crossline => follows_pure rfl

/-- **A trace header depends only on the ranges that are read of it.** -/
theorem TraceHeader.follows_reading (pos : Nat) (order : ByteOrder) (s : Settings)
    (position : Int) :
    Follows image other Eq (reading image pos order s position)
      (reading other pos order s position) := by
  refine (follows_each TraceField.mem_all fun f => (follows_range.map _).unlessSet _).bind_eq
    fun field => ?_
  refine (follows_each Coordinate.mem_all fun c => follows_range.map _).bind_eq
    fun coordinate => ?_
  refine (follows_readingLines image other pos order s position field).bind_eq fun lines => ?_
  exact (follows_range.map _).bind_eq fun name => follows_pure rfl

end Headers

/-! ### The scan -/

namespace Scan

/-- Whether the same is found at a position of two files. -/
inductive Alike {image other : Image} {pos : Nat} :
    ScanStep image pos → ScanStep other pos → Prop where
  | record (header : TraceHeader) (length : Nat)
      (fits : pos + HeaderKind.trace.length + length ≤ image.size)
      (fits' : pos + HeaderKind.trace.length + length ≤ other.size) :
      Alike (.record header length fits) (.record header length fits')
  | stop (reason : ScanStop) (message : Bytes) : Alike (.stop reason message) (.stop reason message)
  | fault (e : Error) : Alike (.fault e) (.fault e)

variable {image other : Image} (hsize : other.size = image.size) (binary : BinaryHeader)
  (s : Settings)
include hsize

theorem follows_readingProbe (pos k : Nat) :
    Follows image other Eq (readingProbe image binary s pos k)
      (readingProbe other binary s pos k) :=
  .ite (by rw [hsize]) ((TraceHeader.follows_reading image other pos _ s k).map _)
    (follows_pure rfl)

theorem follows_readingFixed (pos k : Nat) :
    Follows image other Alike (readingFixed image binary s pos k)
      (readingFixed other binary s pos k) := by
  rw [readingFixed, readingFixed]
  by_cases fits : pos + HeaderKind.trace.length + dataLength binary binary.samples ≤ image.size
  · rw [dif_pos fits, dif_pos (hsize ▸ fits)]
    refine .ite .rfl (follows_pure (.stop _ _)) ?_
    refine (TraceHeader.follows_reading image other pos _ s k).bind_eq fun header => ?_
    cases header with
    | ok header => exact follows_pure (.record ..)
    | error e =>
        refine .ite .rfl (follows_pure (.fault _)) ?_
        refine (follows_readingProbe hsize binary s _ _).bind_eq fun next => ?_
        exact .ite .rfl (follows_pure (.stop _ _)) (follows_pure (.stop _ _))
  · rw [dif_neg fits, dif_neg (hsize ▸ fits)]
    exact follows_pure (.stop _ _)

theorem follows_readingVariable (pos k : Nat) :
    Follows image other Alike (readingVariable image binary s pos k)
      (readingVariable other binary s pos k) := by
  rw [readingVariable, readingVariable]
  refine .ite .rfl (follows_pure (.stop _ _)) ?_
  refine .ite (by rw [hsize]) (follows_pure (.stop _ _)) ?_
  refine (TraceHeader.follows_reading image other pos _ s k).bind_eq fun header => ?_
  cases header with
  | ok header =>
      by_cases fits :
          pos + HeaderKind.trace.length + dataLength binary header.samples ≤ image.size
      · simp only [dif_pos fits, dif_pos (hsize ▸ fits)]
        exact follows_pure (.record ..)
      · simp only [dif_neg fits, hsize]
        exact follows_pure (.fault _)
  | error e => exact follows_pure (.stop _ _)

theorem follows_readingStep (pos k : Nat) :
    Follows image other Alike (readingStep image binary s pos k)
      (readingStep other binary s pos k) :=
  .ite .rfl (follows_readingFixed hsize binary s pos k)
    (follows_readingVariable hsize binary s pos k)

/-- A walk over two files goes the same way as long as the files agree where the first is read. -/
theorem follows_readingWalk (pos k : Nat) :
    Follows image other Eq (readingWalk image binary s pos k)
      (readingWalk other binary s pos k) := by
  rw [readingWalk, readingWalk]
  refine (follows_readingStep hsize binary s pos k).bind fun found found' halike => ?_
  cases halike with
  | record header length fits fits' =>
      refine (follows_readingWalk (pos + HeaderKind.trace.length + length) (k + 1)).bind_eq
        fun rest => ?_
      cases rest <;> exact follows_pure rfl
  | stop reason message => exact follows_pure rfl
  | fault e => exact follows_pure rfl
termination_by image.size - pos
decreasing_by
  have hlen : HeaderKind.trace.length = 240 := rfl
  omega

end Scan

/-! ### The file -/

namespace File

/-- Whether two files are opened alike, apart from their bytes. -/
def OpenedAlike (other : Image) (x y : Except Error File) : Prop :=
  y = x.map fun f => { f with image := other }

variable {image other : Image} (hsize : other.size = image.size) (labelled : Bool) (s : Settings)
include hsize

theorem follows_readingTraces (label : Option TapeLabel) (text : Bytes) (binary : BinaryHeader) :
    Follows image other (OpenedAlike other) (readingTraces image labelled s label text binary)
      (readingTraces other labelled s label text binary) := by
  have hfitting : extendedFitting other labelled = extendedFitting image labelled := by
    rw [extendedFitting, extendedFitting, hsize]
  rw [readingTraces, readingTraces, hfitting]
  refine .ite .rfl (follows_pure rfl) (Follows.bind_eq ?_ fun extended => ?_)
  · exact follows_collect fun i => follows_range.map _
  · refine (Scan.follows_readingWalk hsize binary s _ 0).bind_eq fun found => follows_pure ?_
    cases found <;> rfl

/-- Another file is read as this one is, as long as they agree where this one is read. -/
theorem follows_reading : Follows image other (OpenedAlike other) (reading s image)
    (reading s other) := by
  refine (TapeLabel.follows_readingPresent hsize).bind_eq fun labelled => ?_
  rw [hsize]
  refine .ite .rfl (follows_pure rfl)
    (.andThen (T := OpenedAlike other) (fun _ => rfl) ?_ fun label => ?_)
  · exact .ite .rfl ((TapeLabel.follows_reading image other).map _) (follows_pure rfl)
  refine (follows_range.map _).bind_eq fun text => ?_
  refine .andThen (T := OpenedAlike other) (fun _ => rfl)
    ((BinaryHeader.follows_reading image other _ s).map _) fun binary => ?_
  exact follows_readingTraces hsize labelled s label text binary

/-- **What a file is opened to depends only on its size and on the ranges that are read.**  Another
file of that size with the same bytes in these ranges, and any bytes elsewhere, is read in the same
ranges, and opened to the same. -/
theorem ofImage_of_agreesOn {s : Settings} (hs : ∀ g, s.byte g ≤ GeometryField.lastByte)
    (hagree : image.AgreesOn other (reading s image).ranges) :
    (reading s other).ranges = (reading s image).ranges ∧
      ofImage s other = (ofImage s image).map fun f => { f with image := other } := by
  obtain ⟨hranges, hvalue⟩ := follows_reading hsize s hagree
  rw [OpenedAlike, value_reading hs, value_reading hs] at hvalue
  exact ⟨hranges, hvalue⟩

end File

end SegY
