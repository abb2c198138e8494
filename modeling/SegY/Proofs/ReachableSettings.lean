import SegY.Settings

/-!
# Settings — those that can be made

Settings are made from the default ones by one call after the other, and a call that is refused
changes nothing.  So what the calls check holds of all settings that there are.

* `Valid`: what the calls check.
* `Valid.apply`, `Reachable.valid`: a call keeps it, so all settings have it.
-/

namespace SegY.Settings

/-- The settings that calls can make. -/
inductive Reachable : Settings → Prop where
  | default : Reachable {}
  | apply {s s' : Settings} {call : Setting} (h : Reachable s) (hs : s.apply call = .ok s') :
      Reachable s'

/-- What the calls check of settings. -/
structure Valid (s : Settings) : Prop where
  /-- Every geometry field fits into a trace header. -/
  byte_le : ∀ g, s.byte g ≤ GeometryField.lastByte
  dimX_pos : ∀ n, s.dimX = some n → 0 < n
  dimY_pos : ∀ n, s.dimY = some n → 0 < n
  step_pos : 0 < s.step
  step_lt : s.step < UInt64.size

theorem valid_default : Valid {} where
  byte_le g := by cases g <;> decide
  dimX_pos _ h := by cases h
  dimY_pos _ h := by cases h
  step_pos := by decide
  step_lt := by decide

theorem toNat_toInt_pos {n : Int32} (h : 0 < n) : 0 < n.toInt.toNat := by
  have h' := Int32.lt_iff_toInt_lt.mp h
  rw [Int32.toInt_zero] at h'
  omega

/-! ### What a call checks -/

section Apply

variable {s s' : Settings}

theorem apply_byte_eq_ok_iff {field : GeometryField} {position : Int32} :
    s.apply (.byte field position) = .ok s' ↔
      0 ≤ position ∧ position.toInt ≤ GeometryField.lastByte ∧
      { s with byte := fun g => if g = field then position.toInt.toNat else s.byte g } = s' := by
  show (if position < 0 then Except.error _
    else if GeometryField.lastByte < position.toInt then Except.error _
    else Except.ok { s with byte := fun g => if g = field then position.toInt.toNat else s.byte g })
    = Except.ok s' ↔ _
  split
  · next h => simp [Int32.not_le.mpr h]
  · next h =>
    rw [Int32.not_lt] at h
    split
    · next hlate => simp [Int.not_le.mpr hlate]
    · next hlate => simp [h, Int.not_lt.mp hlate]

theorem apply_coordinateFormat_eq_ok_iff {format : SampleFormat} :
    s.apply (.coordinateFormat format) = .ok s' ↔
      ∃ c, CoordinateFormat.ofSampleFormat? format = some c ∧
        { s with coordinateFormat := c } = s' := by
  rw [apply]
  cases CoordinateFormat.ofSampleFormat? format <;> simp

theorem apply_coordinateScaling_eq_ok_iff {scaling : FloatType.float64.Word} :
    s.apply (.coordinateScaling scaling) = .ok s' ↔
      ∃ n, CoordinateScalar.toInt16 .float64 scaling = .ok n ∧
        { s with coordinateScaling := some n } = s' := by
  rw [apply]
  cases CoordinateScalar.toInt16 .float64 scaling <;> simp

theorem apply_dimension_eq_ok_iff {d : Dimension} {n : Int32} :
    s.apply (.dimension d n) = .ok s' ↔
      (d = .z → n.toInt ≤ maxSamples) ∧ 0 < n ∧ s.withDimension d n = s' := by
  show (if d = .z ∧ (maxSamples : Int) < n.toInt then Except.error _
    else if 0 < n then Except.ok (s.withDimension d n) else Except.error _) = Except.ok s' ↔ _
  split
  · next h => simp [h.1, Int.not_le.mpr h.2]
  · next h =>
    simp only [not_and, Int.not_lt] at h
    split
    · next hn =>
      rw [Except.ok.injEq]
      exact ⟨fun he => ⟨h, hn, he⟩, fun he => he.2.2⟩
    · next hn => simp [hn]

theorem apply_bounds_eq_ok_iff {axis : Axis} {lowest highest : Int32} :
    s.apply (.bounds axis lowest highest) = .ok s' ↔
      lowest ≤ highest ∧ s.withBounds axis ⟨lowest, highest⟩ = s' := by
  show (if lowest ≤ highest then Except.ok (s.withBounds axis ⟨lowest, highest⟩)
    else Except.error _) = Except.ok s' ↔ _
  split
  · next h => simp [h]
  · next h => simp [h]

theorem apply_step_eq_ok_iff {n : UInt64} :
    s.apply (.step n) = .ok s' ↔ n ≠ 0 ∧ { s with step := n.toNat } = s' := by
  show (if n = 0 then Except.error _ else Except.ok { s with step := n.toNat })
    = Except.ok s' ↔ _
  split
  · next h => simp [h]
  · next h => simp [h]

end Apply

/-- A call that is not refused keeps the settings valid. -/
theorem Valid.apply {s s' : Settings} {call : Setting} (h : s.Valid) (hs : s.apply call = .ok s') :
    s'.Valid := by
  obtain ⟨hbyte, hx, hy, hpos, hlt⟩ := h
  cases call with
  | byte field position =>
      obtain ⟨-, hlast, rfl⟩ := apply_byte_eq_ok_iff.mp hs
      refine ⟨fun g => ?_, hx, hy, hpos, hlt⟩
      by_cases hg : g = field
      · simp only [if_pos hg]
        omega
      · simp only [if_neg hg]
        exact hbyte g
  | coordinateFormat format =>
      obtain ⟨c, -, rfl⟩ := apply_coordinateFormat_eq_ok_iff.mp hs
      exact ⟨hbyte, hx, hy, hpos, hlt⟩
  | coordinateScaling scaling =>
      obtain ⟨n, -, rfl⟩ := apply_coordinateScaling_eq_ok_iff.mp hs
      exact ⟨hbyte, hx, hy, hpos, hlt⟩
  | dimension d n =>
      obtain ⟨-, hn, rfl⟩ := apply_dimension_eq_ok_iff.mp hs
      have hn' := toNat_toInt_pos hn
      cases d with
      | x => exact ⟨hbyte, fun m hm => Option.some.inj hm ▸ hn', hy, hpos, hlt⟩
      | y => exact ⟨hbyte, hx, fun m hm => Option.some.inj hm ▸ hn', hpos, hlt⟩
      | z => exact ⟨hbyte, hx, hy, hpos, hlt⟩
  | bounds axis lowest highest =>
      obtain ⟨-, rfl⟩ := apply_bounds_eq_ok_iff.mp hs
      cases axis <;> exact ⟨hbyte, hx, hy, hpos, hlt⟩
  | step n =>
      obtain ⟨hn, rfl⟩ := apply_step_eq_ok_iff.mp hs
      exact ⟨hbyte, hx, hy, Nat.pos_of_ne_zero fun h0 => hn (UInt64.toNat_inj.mp h0),
        n.toNat_lt_size⟩
  | _ => cases hs; exact ⟨hbyte, hx, hy, hpos, hlt⟩

theorem Reachable.valid {s : Settings} (h : Reachable s) : s.Valid := by
  induction h with
  | default => exact valid_default
  | apply _ hs ih => exact ih.apply hs

theorem Reachable.byte_le {s : Settings} (h : Reachable s) (g : GeometryField) :
    s.byte g ≤ GeometryField.lastByte :=
  h.valid.byte_le g

theorem Reachable.foldlM {calls : List Setting} {s s' : Settings} (h : Reachable s)
    (hs : calls.foldlM Settings.apply s = .ok s') : Reachable s' := by
  induction calls generalizing s with
  | nil =>
      cases hs
      exact h
  | cons call rest ih =>
      rw [List.foldlM_cons] at hs
      cases hcall : s.apply call with
      | error e =>
          rw [hcall] at hs
          cases hs
      | ok next =>
          rw [hcall] at hs
          exact ih (h.apply hcall) hs

theorem reachable_of_ofList {calls : List Setting} {s : Settings} (h : ofList calls = .ok s) :
    Reachable s :=
  Reachable.default.foldlM h

/-- Every step but zero can be set. -/
theorem reachable_step {n : UInt64} (h : n ≠ 0) : Reachable { step := n.toNat } :=
  .apply .default (show apply {} (.step n) = _ by rw [apply, if_neg h])

/-- Every scan looks at a record. -/
theorem Valid.maxTraceCount_pos {s : Settings} (h : s.Valid) : 0 < s.maxTraceCount := by
  rw [maxTraceCount, traceCount?]
  split
  · next x y hx hy => exact Nat.mul_pos (h.dimX_pos x hx) (h.dimY_pos y hy)
  · decide

end SegY.Settings
