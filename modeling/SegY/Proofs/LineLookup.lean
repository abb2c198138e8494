import Mathlib.Data.List.Induction
import SegY.Proofs.OpenedFiles

/-!
# Traces by their lines

A file is searched for the trace on a pair of lines by `File.find?`.  `Trace.lineTable` is the table
that a walk over the traces makes: each trace enters its index under its crossline and inline, over
what was there.  Lines are 32-bit numbers, and it does not matter whether they were read or follow
from an imposed geometry.

* `Trace.lineTable_eq`: to look into the table is to search for the last trace.
* `Trace.lastOn?_eq_some_iff`: what is found is on the lines, and nothing after it is.
* `File.find?_eq_last`: both for a file, and that nothing is found only if no trace is on the lines.
-/

namespace SegY

namespace Trace

/-- Whether a trace is on a crossline and an inline. -/
def IsOn (t : Trace) (crossline inline : Int32) : Prop :=
  t.header.crossline = crossline ∧ t.header.inline = inline

instance (t : Trace) (crossline inline : Int32) : Decidable (t.IsOn crossline inline) :=
  inferInstanceAs (Decidable (_ ∧ _))

/-- Whether the trace of an index is the last one on a pair of lines. -/
def IsLastOn (traces : List Trace) (crossline inline : Int32) (k : Nat) : Prop :=
  ∃ t, traces[k]? = some t ∧ t.IsOn crossline inline ∧
    ∀ j t', k < j → traces[j]? = some t' → ¬ t'.IsOn crossline inline

/-- The index that a search for a pair of lines finds. -/
def lastOn? (traces : List Trace) (crossline inline : Int32) : Option Nat :=
  ((traces.zipIdx.filter fun e =>
    e.1.header.crossline == crossline && e.1.header.inline == inline).getLast?).map (·.2)

/-- The table that a walk over the traces makes. -/
def lineTable (traces : List Trace) : Std.HashMap (Int32 × Int32) Nat :=
  traces.zipIdx.foldl (fun table e => table.insert (e.1.header.crossline, e.1.header.inline) e.2) ∅

/-! ### One more trace -/

variable {crossline inline : Int32} (traces : List Trace) (t : Trace)

/-- A trace that is added is found on its lines, and changes nothing on others. -/
theorem lastOn?_concat : lastOn? (traces ++ [t]) crossline inline =
    if t.IsOn crossline inline then some traces.length else lastOn? traces crossline inline := by
  rw [lastOn?, List.zipIdx_append, List.filter_append, List.zipIdx_singleton, Nat.zero_add]
  split
  · next h => simp [h.1, h.2]
  · next h =>
    have hno : (t.header.crossline == crossline && t.header.inline == inline) = false := by
      rw [← Bool.not_eq_true, Bool.and_eq_true, beq_iff_eq, beq_iff_eq]
      exact h
    simp [hno, lastOn?]

/-- A trace that is added replaces what the table has under its lines, and nothing else. -/
theorem lineTable_concat : (lineTable (traces ++ [t]))[(crossline, inline)]? =
    if t.IsOn crossline inline then some traces.length
    else (lineTable traces)[(crossline, inline)]? := by
  rw [lineTable, List.zipIdx_append, List.foldl_append, List.zipIdx_singleton, Nat.zero_add]
  simp only [List.foldl_cons, List.foldl_nil, Std.HashMap.getElem?_insert, beq_iff_eq,
    Prod.mk.injEq]
  rfl

/-- A trace that is added is the last one on its lines, and on no others. -/
theorem isLastOn_concat {k : Nat} : IsLastOn (traces ++ [t]) crossline inline k ↔
    if t.IsOn crossline inline then k = traces.length else IsLastOn traces crossline inline k := by
  have hlast : (traces ++ [t])[traces.length]? = some t := List.getElem?_concat_length
  have hbefore : ∀ {j}, j < traces.length → (traces ++ [t])[j]? = traces[j]? :=
    fun hj => List.getElem?_append_left hj
  constructor
  · rintro ⟨t', hk, hon, hlater⟩
    have hlt : k < (traces ++ [t]).length := (List.getElem?_eq_some_iff.mp hk).1
    rw [List.length_append, List.length_singleton, Nat.lt_succ_iff] at hlt
    rcases Nat.lt_or_eq_of_le hlt with hlt | rfl
    · rw [if_neg (hlater _ t hlt hlast)]
      refine ⟨t', hbefore hlt ▸ hk, hon, fun j t'' hj ht'' => hlater j t'' hj ?_⟩
      exact (hbefore (List.getElem?_eq_some_iff.mp ht'').1).trans ht''
    · cases hlast.symm.trans hk
      rw [if_pos hon]
  · intro h
    split at h
    · next hon =>
      subst h
      refine ⟨t, hlast, hon, fun j t' hj ht' => ?_⟩
      have hlt := (List.getElem?_eq_some_iff.mp ht').1
      rw [List.length_append, List.length_singleton] at hlt
      omega
    · next hoff =>
      obtain ⟨t', hk, hon, hlater⟩ := h
      have hlt := (List.getElem?_eq_some_iff.mp hk).1
      refine ⟨t', (hbefore hlt).trans hk, hon, fun j t'' hj ht'' => ?_⟩
      rcases Nat.lt_trichotomy j traces.length with hj' | rfl | hj'
      · exact hlater j t'' hj (hbefore hj' ▸ ht'')
      · cases hlast.symm.trans ht''
        exact hoff
      · have hlt' := (List.getElem?_eq_some_iff.mp ht'').1
        rw [List.length_append, List.length_singleton] at hlt'
        omega

/-! ### All traces -/

variable {traces}

/-- To look into the table is to search for the last trace on the lines. -/
theorem lineTable_eq :
    (lineTable traces)[(crossline, inline)]? = lastOn? traces crossline inline := by
  -- from the end: the trace that is added there overrules the table and the search alike
  induction traces using List.reverseRecOn with
  | nil => exact Std.HashMap.getElem?_empty
  | append_singleton traces t ih => rw [lineTable_concat, lastOn?_concat, ih]

theorem lastOn?_eq_none_iff :
    lastOn? traces crossline inline = none ↔ ∀ t ∈ traces, ¬ t.IsOn crossline inline := by
  induction traces using List.reverseRecOn with
  | nil => exact ⟨fun _ t ht => absurd ht List.not_mem_nil, fun _ => rfl⟩
  | append_singleton traces t ih =>
      rw [lastOn?_concat, List.forall_mem_append, List.forall_mem_singleton, ← ih]
      split
      · next h => simp [h]
      · next h => simp [h]

theorem lastOn?_eq_some_iff {k : Nat} :
    lastOn? traces crossline inline = some k ↔ IsLastOn traces crossline inline k := by
  induction traces using List.reverseRecOn with
  | nil => simp [lastOn?, IsLastOn]
  | append_singleton traces t ih =>
      rw [lastOn?_concat, isLastOn_concat]
      split
      · exact Option.some_inj.trans eq_comm
      · exact ih

end Trace

namespace File

theorem find?_eq_lastOn? (f : File) (crossline inline : Int32) :
    f.find? crossline inline = Trace.lastOn? f.traces crossline inline :=
  rfl

/-- **A trace is found by its lines, the last one if there are several.**  For every file and every
pair of lines: nothing is found exactly if no trace of the file is on this crossline and this
inline.  What is found otherwise is the trace of the largest index among those that are, and it is
what the table has under the crossline and the inline, in this order. -/
theorem find?_eq_last (f : File) (crossline inline : Int32) :
    (f.find? crossline inline = none ↔
      ∀ t ∈ f.traces, ¬ (t.header.crossline = crossline ∧ t.header.inline = inline)) ∧
    (∀ k, f.find? crossline inline = some k ↔
      ∃ t, f.trace k = .ok t ∧ t.header.crossline = crossline ∧ t.header.inline = inline ∧
        ∀ j t', f.trace j = .ok t' → t'.header.crossline = crossline →
          t'.header.inline = inline → j ≤ k) ∧
    f.find? crossline inline = (Trace.lineTable f.traces)[(crossline, inline)]? := by
  rw [find?_eq_lastOn?]
  refine ⟨Trace.lastOn?_eq_none_iff, fun k => Trace.lastOn?_eq_some_iff.trans ?_,
    Trace.lineTable_eq.symm⟩
  simp only [trace_eq_ok_iff]
  constructor
  · rintro ⟨t, hk, ⟨hcrossline, hinline⟩, hlater⟩
    exact ⟨t, hk, hcrossline, hinline, fun j t' hj hc hi =>
      Nat.le_of_not_lt fun hlt => hlater j t' hlt hj ⟨hc, hi⟩⟩
  · rintro ⟨t, hk, hcrossline, hinline, hlast⟩
    exact ⟨t, hk, ⟨hcrossline, hinline⟩, fun j t' hlt hj hon =>
      Nat.not_le_of_lt hlt (hlast j t' hj hon.1 hon.2)⟩

end File

end SegY
