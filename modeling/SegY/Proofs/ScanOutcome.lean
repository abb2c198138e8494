import Mathlib.Tactic.ByContra
import SegY.Proofs.ScanTrail

/-!
# Scan — how a scan ends

A scan ends at the first record at which one of its tests says so, and `Ends` has the tests of
both modes in their order.  There is such a record in every file, and only one, so nothing but the
bytes, the binary header and the settings has a say in what a scan reports.

* `FirstEnd`: the scan ends at record `k`, and at none before it.
* `scan_report`: what a scan reports is what its first end says.
-/

namespace SegY

/-! ### What is shown of a message -/

namespace Bytes

theorem ofText_append (a b : String) : ofText (a ++ b) = ofText a ++ ofText b := by
  simp [ofText]

theorem untilNul_append_ne_nil {a : Bytes} (h : a.untilNul ≠ []) (b : Bytes) :
    (a ++ b).untilNul ≠ [] := by
  cases a with
  | nil => exact absurd rfl h
  | cons x a =>
      simp only [untilNul, List.cons_append, List.takeWhile_cons] at h ⊢
      split at h
      · next hx => rw [if_pos hx]; exact List.cons_ne_nil _ _
      · exact absurd rfl h

theorem untilNul_ofText_append_ne_nil {a : String} (h : (ofText a).untilNul ≠ []) (b : String) :
    (ofText (a ++ b)).untilNul ≠ [] := by
  rw [ofText_append]
  exact untilNul_append_ne_nil h _

end Bytes

/-- Every message on a number begins with words. -/
theorem Error.text_conversion_ne_nil (e : ConversionError) : (Error.conversion e).text ≠ [] := by
  have append {a : String} (h : (Bytes.ofText a).untilNul ≠ []) (b : String) :=
    Bytes.untilNul_ofText_append_ne_nil h b
  change (Bytes.ofText e.message).untilNul ≠ []
  cases e with
  | unrepresentable source value target =>
      change (Bytes.ofText ("value (which is " ++ _ ++ _ ++ _)).untilNul ≠ []
      exact append (append (append (by decide) _) _) _
  | multiplier type value =>
      change (Bytes.ofText ("coordinate multiplier (which is " ++ _ ++ _)).untilNul ≠ []
      exact append (append (by decide) _) _
  | lossy type format =>
      change (Bytes.ofText ("data of type '" ++ _ ++ _ ++ _ ++ _)).untilNul ≠ []
      exact append (append (append (append (by decide) _) _) _) _
  | ibmUnwritable => decide
  | fixedPoint => decide
  | int24 => decide

namespace Scan

variable {image : Image} {binary : BinaryHeader} {s : Settings}

/-! ### The first end -/

/-- A scan from `first` on ends at record `k` in this way, and at no record before it. -/
structure FirstEnd (image : Image) (first : Nat) (binary : BinaryHeader) (s : Settings) (k : Nat)
    (r : Except Error ScanReport) : Prop where
  ends : Ends image binary s (recordStart image binary first k) k r
  before : ∀ j < k, ∀ r', ¬ Ends image binary s (recordStart image binary first j) j r'

theorem Ends.unique {pos k : Nat} {r r' : Except Error ScanReport} (h : Ends image binary s pos k r)
    (h' : Ends image binary s pos k r') : r = r' := by
  have ho := outcome?_step_eq_some_iff.mpr h
  rw [outcome?_step_eq_some_iff.mpr h'] at ho
  exact (Option.some.inj ho).symm

/-- A scan goes on at a record that is all there. -/
theorem not_ends_of_record {pos k : Nat} {header : TraceHeader} (hk : k < s.maxTraceCount)
    (hh : headerAt image binary s pos k = .ok header)
    (fits : recordEnd image binary pos ≤ image.size)
    (r : Except Error ScanReport) : ¬ Ends image binary s pos k r := by
  intro h
  have hstep : step image binary s pos k = .record header (recordLength image binary pos) fits :=
    step_eq_record_iff.mpr ⟨hk, hh, rfl⟩
  have ho := outcome?_step_eq_some_iff.mpr h
  rw [hstep] at ho
  cases ho

theorem FirstEnd.unique {first k k' : Nat} {r r' : Except Error ScanReport}
    (h : FirstEnd image first binary s k r) (h' : FirstEnd image first binary s k' r') :
    k = k' ∧ r = r' := by
  rcases Nat.lt_trichotomy k k' with hlt | rfl | hlt
  · exact absurd h.ends (h'.before k hlt r)
  · exact ⟨rfl, h.ends.unique h'.ends⟩
  · exact absurd h'.ends (h.before k' hlt r')

/-- No scan goes on beyond the trace limit. -/
theorem FirstEnd.le_maxTraceCount {first k : Nat} {r : Except Error ScanReport}
    (h : FirstEnd image first binary s k r) : k ≤ s.maxTraceCount := by
  by_contra hk
  have hlt : s.maxTraceCount < k := Nat.not_le.mp hk
  cases hmode : binary.fixedLength with
  | true =>
      by_cases fits :
          recordEnd image binary (recordStart image binary first s.maxTraceCount) ≤ image.size
      · exact h.before _ hlt _ (.fixedTraceLimit hmode fits (Nat.le_refl _))
      · exact h.before _ hlt _ (.fixedEndOfFile hmode (Nat.not_le.mp fits))
  | false => exact h.before _ hlt _ (.traceLimit hmode (Nat.le_refl _))

/-- Every scan has a first end, which is what it reports. -/
theorem exists_firstEnd (image : Image) (first : Nat) (binary : BinaryHeader) (s : Settings) :
    ∃ k r, FirstEnd image first binary s k r ∧ (scan image first binary s).map Scan.report = r := by
  obtain ⟨n, traces, stop, r, t, hend⟩ := exists_trail image binary s first 0
  rw [Nat.zero_add] at hend
  have hscan : (scan image first binary s).map Scan.report = r := by
    rw [t.scan_eq hend]
    cases r <;> rfl
  rw [t.stop_eq] at hend
  -- none of the records that the scan walked over ends it
  refine ⟨n, r, ⟨hend, fun j hj r' => ?_⟩, hscan⟩
  obtain ⟨hk, ⟨header, hh⟩, fits⟩ := t.record_of_lt hj
  rw [Nat.zero_add] at hk hh
  exact not_ends_of_record hk hh fits r'

/-- A report quotes why a header cannot be read exactly if that is why the scan stopped. -/
theorem Ends.message_ne_nil_iff {pos k : Nat} {report : ScanReport}
    (h : Ends image binary s pos k (.ok report)) :
    report.message ≠ [] ↔
      report.reason ∈ [.suspectedCorruption, .suspectedEndOfData, .headerFailure] := by
  cases h with
  | suspectedCorruption => simp [Error.text_conversion_ne_nil]
  | suspectedEndOfData => simp [Error.text_conversion_ne_nil]
  | headerFailure => simp [Error.text_conversion_ne_nil]
  | _ => simp

/-- **The outcome of a scan is exactly determined.**  Whatever bytes are scanned, from wherever
and with whatever settings: a scan reports, or fails with, what its first end says, and does not
go beyond the trace limit.  It fails only because the first header of a file of fixed length
cannot be read, or because the samples that a header declares are not all there. -/
theorem scan_report (image : Image) (first : Nat) (binary : BinaryHeader) (s : Settings) :
    (∀ r, (scan image first binary s).map Scan.report = r ↔
      ∃ k, FirstEnd image first binary s k r) ∧
    (∀ k r, FirstEnd image first binary s k r → k ≤ s.maxTraceCount) ∧
    (∀ found, scan image first binary s = .ok found →
      (found.report.message ≠ [] ↔
        found.report.reason ∈ [.suspectedCorruption, .suspectedEndOfData, .headerFailure])) ∧
    (∀ e, scan image first binary s = .error e →
      (binary.fixedLength = true ∧ ∃ c, headerAt image binary s first 0 = .error c ∧
        e = .conversion c) ∨
      (binary.fixedLength = false ∧ ∃ k needed remaining,
        e = .malformed
          (.incompleteTrace k (recordStart image binary first k) needed remaining))) := by
  obtain ⟨k, r, hfirst, hscan⟩ := exists_firstEnd image first binary s
  have hends := hfirst.ends
  refine ⟨fun r' => ⟨?_, ?_⟩, fun k r h => h.le_maxTraceCount, fun found h => ?_, fun e h => ?_⟩
  · rintro rfl
    exact ⟨k, hscan ▸ hfirst⟩
  · rintro ⟨k', h'⟩
    rw [hscan, (hfirst.unique h').2]
  · rw [h] at hscan
    subst hscan
    exact hends.message_ne_nil_iff
  · rw [h] at hscan
    subst hscan
    cases hends with
    | firstHeader mode fits more unreadable zero =>
        subst zero
        exact .inl ⟨mode, _, unreadable, rfl⟩
    | incomplete mode more fits readable short => exact .inr ⟨mode, k, _, _, rfl⟩

end Scan

end SegY
