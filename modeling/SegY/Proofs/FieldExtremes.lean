import Mathlib.Data.List.Induction
import SegY.CommandLine.Summary
import SegY.Proofs.StridedReading

/-!
# The range of a field

`File.extremes` walks over the traces of a file and keeps two indices, each with the value of a
field there.  A value replaces the lowest one so far if it is below it, and the highest one so far
if it is not below it, so of several lowest values the first is kept and of several highest the
last.  Both are one walk, with different preferences.

* `Preference.isChosen_choose`: what a walk keeps.
* `File.exists_extremes`: a file that has traces has a range, from the first lowest to the last
  highest value.
* `CommandLine.rangeLine_eq`: what is printed about the range of a field.
-/

namespace SegY

/-! ### Walks that keep one value -/

/-- When a value replaces the one that a walk keeps. -/
structure Preference where
  replaces : Int32 → Int32 → Prop
  decidable : DecidableRel replaces
  trans : ∀ {a b c}, replaces a b → replaces b c → replaces a c
  keeps : ∀ {a b c}, replaces a b → ¬ replaces c b → replaces a c

namespace Preference

instance (p : Preference) : DecidableRel p.replaces := p.decidable

/-- Only what is below a value replaces it. -/
def below : Preference where
  replaces a b := a < b
  decidable _ _ := inferInstance
  trans := Int32.lt_trans
  keeps hab hcb := Int32.lt_of_lt_of_le hab (Int32.not_lt.mp hcb)

/-- What is not below a value replaces it. -/
def notBelow : Preference where
  replaces a b := b ≤ a
  decidable _ _ := inferInstance
  trans hba hcb := Int32.le_trans hcb hba
  keeps hba hbc := Int32.le_of_lt (Int32.lt_of_lt_of_le (Int32.not_le.mp hbc) hba)

variable (p : Preference)

/-- The value that a walk keeps, with its index; the walk begins with a value at index 0. -/
def choose (x : Int32) (rest : List Int32) : Int32 × Nat :=
  (rest.zipIdx 1).foldl (fun best y => if p.replaces y.1 best.1 then y else best) (x, 0)

/-- Whether a value replaces all that are before it, and none that is after it replaces it. -/
structure IsChosen (values : List Int32) (best : Int32 × Nat) : Prop where
  value_at : values[best.2]? = some best.1
  earlier : ∀ j y, j < best.2 → values[j]? = some y → p.replaces best.1 y
  later : ∀ j y, best.2 < j → values[j]? = some y → ¬ p.replaces y best.1

variable {p} {values : List Int32} {best : Int32 × Nat}

theorem isChosen_singleton (x : Int32) : p.IsChosen [x] (x, 0) where
  value_at := rfl
  earlier j _ hj := absurd hj (Nat.not_lt_zero j)
  later j y hj hy := by
    have hlt : j < 1 := (List.getElem?_eq_some_iff.mp hy).1
    exact absurd hj (Nat.not_lt.mpr (Nat.lt_succ_iff.mp hlt))

/-- One more value that replaces the one that was kept. -/
theorem IsChosen.replaced (h : p.IsChosen values best) {y : Int32} (hy : p.replaces y best.1) :
    p.IsChosen (values ++ [y]) (y, values.length) where
  value_at := List.getElem?_concat_length
  earlier j z hj hz := by
    replace hz : values[j]? = some z := (List.getElem?_append_left hj).symm.trans hz
    rcases Nat.lt_trichotomy j best.2 with hj' | rfl | hj'
    · exact p.trans hy (h.earlier j z hj' hz)
    · cases h.value_at.symm.trans hz
      exact hy
    · exact p.keeps hy (h.later j z hj' hz)
  later j z hj hz := by
    have hlt := (List.getElem?_eq_some_iff.mp hz).1
    rw [List.length_append, List.length_singleton] at hlt
    exact absurd (Nat.lt_succ_iff.mp hlt) (Nat.not_le.mpr hj)

/-- One more value that does not. -/
theorem IsChosen.kept (h : p.IsChosen values best) {y : Int32} (hy : ¬ p.replaces y best.1) :
    p.IsChosen (values ++ [y]) best := by
  have hlt : best.2 < values.length := (List.getElem?_eq_some_iff.mp h.value_at).1
  refine ⟨(List.getElem?_append_left hlt).trans h.value_at, fun j z hj hz => ?_,
    fun j z hj hz => ?_⟩
  · exact h.earlier j z hj ((List.getElem?_append_left (Nat.lt_trans hj hlt)).symm.trans hz)
  · rcases Nat.lt_trichotomy j values.length with hj' | rfl | hj'
    · exact h.later j z hj ((List.getElem?_append_left hj').symm.trans hz)
    · cases List.getElem?_concat_length.symm.trans hz
      exact hy
    · have hlt := (List.getElem?_eq_some_iff.mp hz).1
      rw [List.length_append, List.length_singleton] at hlt
      omega

theorem choose_concat (x : Int32) (rest : List Int32) (y : Int32) :
    p.choose x (rest ++ [y]) =
      if p.replaces y (p.choose x rest).1 then (y, (x :: rest).length) else p.choose x rest := by
  rw [choose, List.zipIdx_append, List.foldl_append, List.zipIdx_singleton, List.length_cons,
    Nat.add_comm 1]
  rfl

/-- What a walk keeps replaces all that it saw before, and nothing that it saw later replaces it. -/
theorem isChosen_choose (x : Int32) (rest : List Int32) :
    p.IsChosen (x :: rest) (p.choose x rest) := by
  -- from the end, since what is added there is what the walk sees last
  induction rest using List.reverseRecOn with
  | nil => exact isChosen_singleton x
  | append_singleton rest y ih =>
      rw [choose_concat]
      split
      · next hy => exact ih.replaced hy
      · next hy => exact ih.kept hy

/-- Of two lowest values the first is kept, and of two highest the last. -/
example : below.choose 5 [3, 9, 3, 9, 4] = (3, 1) ∧ notBelow.choose 5 [3, 9, 3, 9, 4] = (9, 4) := by
  decide

end Preference

/-! ### The range of a field -/

namespace File

variable {f : File} {g : GeometryField} {k : Nat}

/-- Whether the trace of an index has the lowest value of a field, and is the first that has it. -/
def IsFirstLowest (f : File) (g : GeometryField) (k : Nat) : Prop :=
  ∃ t, f.trace k = .ok t ∧ ∀ j t', f.trace j = .ok t' →
    t.header.geometry g ≤ t'.header.geometry g ∧
      (j < k → t.header.geometry g < t'.header.geometry g)

/-- Whether the trace of an index has the highest value of a field, and is the last that has it. -/
def IsLastHighest (f : File) (g : GeometryField) (k : Nat) : Prop :=
  ∃ t, f.trace k = .ok t ∧ ∀ j t', f.trace j = .ok t' →
    t'.header.geometry g ≤ t.header.geometry g ∧
      (k < j → t'.header.geometry g < t.header.geometry g)

theorem lt_size_of_trace {t : Trace} (h : f.trace k = .ok t) : k < f.size :=
  (List.getElem?_eq_some_iff.mp (trace_eq_ok_iff.mp h)).1

theorem IsFirstLowest.lt (h : f.IsFirstLowest g k) : k < f.size := by
  obtain ⟨t, ht, -⟩ := h
  exact lt_size_of_trace ht

theorem IsLastHighest.lt (h : f.IsLastHighest g k) : k < f.size := by
  obtain ⟨t, ht, -⟩ := h
  exact lt_size_of_trace ht

/-- The values of a field, trace by trace. -/
def values (f : File) (g : GeometryField) : List Int32 := f.traces.map (·.header.geometry g)

theorem getElem?_values {x : Int32} :
    (f.values g)[k]? = some x ↔ ∃ t, f.trace k = .ok t ∧ t.header.geometry g = x := by
  rw [values, List.getElem?_map, Option.map_eq_some_iff]
  simp only [trace_eq_ok_iff]

theorem isFirstLowest_of_isChosen {best : Int32 × Nat}
    (h : Preference.below.IsChosen (f.values g) best) : f.IsFirstLowest g best.2 := by
  obtain ⟨t, ht, hbest⟩ := getElem?_values.mp h.value_at
  refine ⟨t, ht, fun j t' ht' => ?_⟩
  have hj : (f.values g)[j]? = some (t'.header.geometry g) := getElem?_values.mpr ⟨t', ht', rfl⟩
  rw [hbest]
  refine ⟨?_, fun hlt => h.earlier j _ hlt hj⟩
  rcases Nat.lt_trichotomy j best.2 with hlt | rfl | hlt
  · exact Int32.le_of_lt (h.earlier j _ hlt hj)
  · rw [Option.some.inj (h.value_at.symm.trans hj)]
    exact Int32.le_refl _
  · exact Int32.not_lt.mp (h.later j _ hlt hj)

theorem isLastHighest_of_isChosen {best : Int32 × Nat}
    (h : Preference.notBelow.IsChosen (f.values g) best) : f.IsLastHighest g best.2 := by
  obtain ⟨t, ht, hbest⟩ := getElem?_values.mp h.value_at
  refine ⟨t, ht, fun j t' ht' => ?_⟩
  have hj : (f.values g)[j]? = some (t'.header.geometry g) := getElem?_values.mpr ⟨t', ht', rfl⟩
  rw [hbest]
  refine ⟨?_, fun hlt => Int32.not_le.mp (h.later j _ hlt hj)⟩
  rcases Nat.lt_trichotomy j best.2 with hlt | rfl | hlt
  · exact h.earlier j _ hlt hj
  · rw [Option.some.inj (h.value_at.symm.trans hj)]
    exact Int32.le_refl _
  · exact Int32.le_of_lt (Int32.not_le.mp (h.later j _ hlt hj))

theorem extremes_of_nil (h : f.traces = []) : f.extremes g = .error (.noTraces g) := by
  rw [extremes, h]
  rfl

/-- The two walks are made over the same values. -/
theorem extremes_of_cons {x : Int32} {rest : List Int32} (h : f.values g = x :: rest) :
    f.extremes g = .ok ((Preference.below.choose x rest).2, (Preference.notBelow.choose x rest).2)
    := by
  rw [values] at h
  rw [extremes, h]
  rfl

/-- A file that has traces has a range of every field. -/
theorem exists_extremes (h : f.traces ≠ []) (g : GeometryField) :
    ∃ lowest highest, f.extremes g = .ok (lowest, highest) ∧ f.IsFirstLowest g lowest ∧
      f.IsLastHighest g highest := by
  cases hvalues : f.values g with
  | nil => exact absurd (List.map_eq_nil_iff.mp hvalues) h
  | cons x rest =>
      refine ⟨_, _, extremes_of_cons hvalues, isFirstLowest_of_isChosen ?_,
        isLastHighest_of_isChosen ?_⟩
      · exact hvalues ▸ Preference.isChosen_choose x rest
      · exact hvalues ▸ Preference.isChosen_choose x rest

theorem extremes_eq_error_iff {e : IndexError} :
    f.extremes g = .error e ↔ f.traces = [] ∧ e = .noTraces g := by
  constructor
  · intro h
    by_cases htraces : f.traces = []
    · rw [extremes_of_nil htraces] at h
      cases h
      exact ⟨htraces, rfl⟩
    · obtain ⟨lowest, highest, hok, -⟩ := exists_extremes htraces g
      cases hok.symm.trans h
  · rintro ⟨htraces, rfl⟩
    exact extremes_of_nil htraces

end File

namespace CommandLine

variable {f : File}

theorem valueAt_of_trace {g : GeometryField} {i : Nat} {t : Trace} (h : f.trace i = .ok t) :
    valueAt f g i = t.header.geometry g := by
  rw [valueAt, h]

/-- The line about the range of a field is about values in order, which all others are between. -/
theorem rangeLine_eq (h : f.traces ≠ []) (g : GeometryField) :
    ∃ low high : Int32, low ≤ high ∧
      (∀ t ∈ f.traces, low ≤ t.header.geometry g ∧ t.header.geometry g ≤ high) ∧
      rangeLine f g = fileLine (rangeHeading g) s!"{low} - {high}" := by
  obtain ⟨lowest, highest, hok, ⟨t, ht, hlow⟩, ⟨t', ht', hhigh⟩⟩ := File.exists_extremes h g
  refine ⟨t.header.geometry g, t'.header.geometry g, (hlow highest t' ht').1, fun u hu => ?_, ?_⟩
  · obtain ⟨j, hj⟩ := List.getElem?_of_mem hu
    have hu := File.trace_eq_ok_iff.mpr hj
    exact ⟨(hlow j u hu).1, (hhigh j u hu).1⟩
  · rw [rangeLine, hok, ← valueAt_of_trace ht, ← valueAt_of_trace ht']

theorem rangeLine_of_nil (h : f.traces = []) (g : GeometryField) : rangeLine f g = [] := by
  rw [rangeLine, File.extremes_of_nil h]

/-- The summary has the lines about all four ranges. -/
theorem rangeLine_infix_summary (name : Bytes) (f : File) (text : Bool) (g : GeometryField) :
    rangeLine f g <:+: summary name f text := by
  have front {a b c : Bytes} (h : a <:+: b) : a <:+: b ++ c :=
    h.trans (List.prefix_append b c).isInfix
  have last (a b : Bytes) : a <:+: b ++ a := (List.suffix_append b a).isInfix
  unfold summary
  cases g with
  | cdpY => exact front (last _ _)
  | cdpX => exact front (front (last _ _))
  | crossline => exact front (front (front (last _ _)))
  | inline => exact front (front (front (front (last _ _))))

/-- What is printed of a file that can be opened. -/
theorem stdout_of_ofBytes {d : Directory} {arguments : List Bytes} {r : Request}
    {name content : Bytes} (hr : Request.ofArguments arguments = .ok (r, name))
    (hcontent : d.read name = .ok content) (hf : File.ofBytes r.settings content = .ok f) :
    (run d arguments).stdout = summary name f r.text := by
  have hopened : ((d.read name).mapError Error.system).bind (File.ofBytes r.settings) = .ok f := by
    rw [hcontent]
    exact hf
  rw [run, hr]
  show (r.run name (d.read name)).stdout = _
  rw [Request.run, hopened]

end CommandLine

namespace File

/-- **A range is from the first lowest to the last highest value.**  For every file and each
geometry field: there is no range exactly if the file has no traces.  Otherwise the two indices are
those of the first trace that has the lowest value, and of the last trace that has the highest.

So what the command line prints about a file has a line about each of the four ranges, whose first
value is not above the second, or none if the file has no traces. -/
theorem extremes_first_lowest_last_highest (f : File) (g : GeometryField) :
    ((∃ e, f.extremes g = .error e) ↔ f.traces = []) ∧
    (∀ e, f.extremes g = .error e → e = .noTraces g) ∧
    (∀ lowest highest, f.extremes g = .ok (lowest, highest) →
      lowest < f.size ∧ highest < f.size ∧ f.IsFirstLowest g lowest ∧ f.IsLastHighest g highest) ∧
    (f.traces = [] → CommandLine.rangeLine f g = []) ∧
    (f.traces ≠ [] → ∃ low high : Int32, low ≤ high ∧
      (∀ t ∈ f.traces, low ≤ t.header.geometry g ∧ t.header.geometry g ≤ high) ∧
      CommandLine.rangeLine f g =
        CommandLine.fileLine (CommandLine.rangeHeading g) s!"{low} - {high}") ∧
    ∀ d arguments r name content, CommandLine.Request.ofArguments arguments = .ok (r, name) →
      Directory.read d name = .ok content → ofBytes r.settings content = .ok f →
      CommandLine.rangeLine f g <:+: (CommandLine.run d arguments).stdout := by
  refine ⟨?_, fun e h => (extremes_eq_error_iff.mp h).2, fun lowest highest h => ?_,
    fun h => CommandLine.rangeLine_of_nil h g, fun h => CommandLine.rangeLine_eq h g,
    fun d arguments r name content hr hcontent hf => ?_⟩
  · simp only [extremes_eq_error_iff, exists_and_left, exists_eq, and_true]
  · have htraces : f.traces ≠ [] := fun hnil => by
      rw [extremes_of_nil hnil] at h
      cases h
    obtain ⟨lowest', highest', hok, hlowest, hhighest⟩ := exists_extremes htraces g
    cases hok.symm.trans h
    exact ⟨hlowest.lt, hhighest.lt, hlowest, hhighest⟩
  · rw [CommandLine.stdout_of_ofBytes hr hcontent hf]
    exact CommandLine.rangeLine_infix_summary name f r.text g

/-- A file with one trace, by its name. -/
theorem extremes_first_lowest_last_highest_sevenEightNine :
    let d : Directory := { files := [(⟨.here, [0x61]⟩, Reader.sevenEightNine)] }
    ∃ f lowest highest, ofBytes {} Reader.sevenEightNine = .ok f ∧
      f.extremes .inline = .ok (lowest, highest) ∧ lowest < f.size ∧ highest < f.size ∧
      ∃ low high : Int32, low ≤ high ∧
        CommandLine.fileLine "inlines:" s!"{low} - {high}" <:+: (CommandLine.run d [[0x61]]).stdout
    := by
  intro d
  obtain ⟨f, t, hopen, -, -, ht, -⟩ := Reader.ofBytes_sevenEightNine 1
  obtain ⟨f₀, hf, hf₀⟩ := Except.map_eq_ok_iff.mp hopen
  cases hf₀
  obtain ⟨hnone, -, hrange, -, hline, hprinted⟩ := extremes_first_lowest_last_highest f .inline
  have htraces : f.traces ≠ [] := List.ne_nil_of_mem (mem_of_trace ht)
  cases hextremes : f.extremes .inline with
  | error e => exact absurd (hnone.mp ⟨e, hextremes⟩) htraces
  | ok range =>
    obtain ⟨lowest, highest⟩ := range
    obtain ⟨hlowest, hhighest, -⟩ := hrange lowest highest hextremes
    obtain ⟨low, high, hle, -, hlow⟩ := hline htraces
    refine ⟨f, lowest, highest, hf, hextremes, hlowest, hhighest, low, high, hle, ?_⟩
    have h := hprinted d [[0x61]] {} [0x61] Reader.sevenEightNine rfl rfl hf
    rw [hlow] at h
    exact h

end File

end SegY
