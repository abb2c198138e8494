import Mathlib.Data.List.Induction
import SegY.Proofs.ReachableSettings
import SegY.Proofs.Results

/-!
# Settings — made by calls, some of which are refused

A caller may go on after a call that was refused.  `ofCalls` are the settings that any list of calls
leaves, and whether a call is refused does not depend on the settings it meets
(`isOk_apply`).

* `geometry_of_apply`: what one call does to the bounds and the dimensions.
* `bounds_ofCalls`: the bounds of an axis are those of the last call that set them, if that was not
  refused.
* `Sound.apply`, `sound_ofCalls`: what the checks of all calls together amount to.
-/

namespace SegY

/-- The axis whose lines a dimension counts. -/
def Dimension.axis? : Dimension → Option Axis
  | .x => some .crossline
  | .y => some .inline
  | .z => none

namespace Setting

/-- Whether a call is not refused. -/
def accepted (call : Setting) : Bool := (({} : Settings).apply call).isOk

/-- The bounds that a call sets for an axis. -/
def bounds? (axis : Axis) : Setting → Option Bounds
  | dimension d n => if d.axis? = some axis then some ⟨0, n - 1⟩ else none
  | bounds a lowest highest => if a = axis then some ⟨lowest, highest⟩ else none
  | _ => none

/-- The number that a call sets for a dimension. -/
def dimension? (d : Dimension) : Setting → Option Int32
  | dimension d' n => if d' = d then some n else none
  | _ => none

end Setting

namespace Settings

/-! ### One call -/

/-- The settings after a call; one that is refused changes nothing. -/
def perform (s : Settings) (call : Setting) : Settings := (s.apply call).toOption.getD s

/-- An imposed dimension. -/
def dimension (s : Settings) : Dimension → Option Nat
  | .x => s.dimX
  | .y => s.dimY
  | .z => s.dimZ

/-- A call is refused for its value alone. -/
theorem isOk_apply (s : Settings) (call : Setting) : (s.apply call).isOk = call.accepted := by
  rw [Setting.accepted]
  cases call with
  | byte field position =>
      simp only [apply]
      split
      · rfl
      · split <;> rfl
  | coordinateFormat format =>
      simp only [apply]
      split <;> rfl
  | coordinateScaling scaling =>
      simp only [apply]
      split <;> rfl
  | dimension d n =>
      simp only [apply]
      split
      · rfl
      · split <;> rfl
  | bounds axis lowest highest =>
      simp only [apply]
      split <;> rfl
  | step n =>
      simp only [apply]
      split <;> rfl
  | _ => rfl

theorem perform_of_accepted {s : Settings} {call : Setting} (h : call.accepted = true) :
    s.apply call = .ok (s.perform call) := by
  obtain ⟨s', hs⟩ := Except.isOk_iff.mp ((s.isOk_apply call).trans h)
  rw [perform, hs]
  rfl

theorem perform_of_refused {s : Settings} {call : Setting} (h : call.accepted = false) :
    s.perform call = s := by
  have hs := (s.isOk_apply call).trans h
  rw [perform]
  cases hcall : s.apply call with
  | ok s' => rw [hcall] at hs; cases hs
  | error e => rfl

theorem bounds_withBounds (s : Settings) (axis axis' : Axis) (b : Bounds) :
    (s.withBounds axis b).bounds axis' = if axis = axis' then some b else s.bounds axis' := by
  cases axis <;> cases axis' <;> rfl

theorem bounds_withDimension (s : Settings) (d : Dimension) (n : Int32) (axis : Axis) :
    (s.withDimension d n).bounds axis =
      if d.axis? = some axis then some ⟨0, n - 1⟩ else s.bounds axis := by
  cases d <;> cases axis <;> rfl

theorem dimension_withBounds (s : Settings) (axis : Axis) (b : Bounds) (d : Dimension) :
    (s.withBounds axis b).dimension d = s.dimension d := by
  cases axis <;> cases d <;> rfl

theorem dimension_withDimension (s : Settings) (d d' : Dimension) (n : Int32) :
    (s.withDimension d n).dimension d' =
      if d = d' then some n.toInt.toNat else s.dimension d' := by
  cases d <;> cases d' <;> rfl

theorem toInt_sub_one {n : Int32} (h : 0 < n) : (n - 1).toInt = n.toInt - 1 := by
  have hpos := Int32.lt_iff_toInt_lt.mp h
  have hlt := n.toInt_lt
  rw [Int32.toInt_zero] at hpos
  rw [Int32.toInt_sub, Int32.toInt_one, Int.bmod_eq_of_le (by omega) (by omega)]

section Apply

variable {s s' : Settings} {call : Setting} (hs : s.apply call = .ok s')
include hs

/-- A call sets the bounds and the dimension that are its own, and leaves all others. -/
theorem geometry_of_apply :
    (∀ axis, s'.bounds axis = (call.bounds? axis).or (s.bounds axis)) ∧
      ∀ d, s'.dimension d = ((call.dimension? d).map (·.toInt.toNat)).or (s.dimension d) := by
  cases call with
  | dimension d n =>
      obtain ⟨-, -, rfl⟩ := apply_dimension_eq_ok_iff.mp hs
      refine ⟨fun axis => ?_, fun d' => ?_⟩
      · rw [bounds_withDimension, Setting.bounds?]
        split <;> rfl
      · rw [dimension_withDimension, Setting.dimension?]
        split <;> rfl
  | bounds a lowest highest =>
      obtain ⟨-, rfl⟩ := apply_bounds_eq_ok_iff.mp hs
      refine ⟨fun axis => ?_, fun d => dimension_withBounds ..⟩
      rw [bounds_withBounds, Setting.bounds?]
      split <;> rfl
  -- all other calls leave the geometry alone
  | byte field position =>
      obtain ⟨-, -, rfl⟩ := apply_byte_eq_ok_iff.mp hs
      exact ⟨fun axis => by cases axis <;> rfl, fun d => by cases d <;> rfl⟩
  | coordinateFormat format =>
      obtain ⟨c, -, rfl⟩ := apply_coordinateFormat_eq_ok_iff.mp hs
      exact ⟨fun axis => by cases axis <;> rfl, fun d => by cases d <;> rfl⟩
  | coordinateScaling scaling =>
      obtain ⟨n, -, rfl⟩ := apply_coordinateScaling_eq_ok_iff.mp hs
      exact ⟨fun axis => by cases axis <;> rfl, fun d => by cases d <;> rfl⟩
  | step n =>
      obtain ⟨-, rfl⟩ := apply_step_eq_ok_iff.mp hs
      exact ⟨fun axis => by cases axis <;> rfl, fun d => by cases d <;> rfl⟩
  | _ =>
      cases hs
      exact ⟨fun axis => by cases axis <;> rfl, fun d => by cases d <;> rfl⟩

/-- Bounds that are set are in order. -/
theorem bounds_le_of_apply {axis : Axis} {b : Bounds} (hb : call.bounds? axis = some b) :
    b.lowest ≤ b.highest := by
  cases call with
  | dimension d n =>
      obtain ⟨-, hn, -⟩ := apply_dimension_eq_ok_iff.mp hs
      simp only [Setting.bounds?, Option.ite_none_right_eq_some, Option.some.injEq] at hb
      obtain ⟨-, rfl⟩ := hb
      have hpos := Int32.lt_iff_toInt_lt.mp hn
      rw [Int32.le_iff_toInt_le, toInt_sub_one hn]
      rw [Int32.toInt_zero] at hpos ⊢
      omega
  | bounds a lowest highest =>
      obtain ⟨hle, -⟩ := apply_bounds_eq_ok_iff.mp hs
      simp only [Setting.bounds?, Option.ite_none_right_eq_some, Option.some.injEq] at hb
      obtain ⟨-, rfl⟩ := hb
      exact hle
  | _ => cases hb

/-- Dimensions that are set are positive, and one of samples is one that a trace can have. -/
theorem dimension_pos_of_apply {d : Dimension} {n : Int32} (hd : call.dimension? d = some n) :
    0 < n ∧ (d = .z → n.toInt ≤ maxSamples) := by
  cases call with
  | dimension d' m =>
      obtain ⟨hmax, hpos, -⟩ := apply_dimension_eq_ok_iff.mp hs
      simp only [Setting.dimension?, Option.ite_none_right_eq_some, Option.some.injEq] at hd
      obtain ⟨rfl, rfl⟩ := hd
      exact ⟨hpos, hmax⟩
  | _ => cases hd

end Apply

/-! ### All calls -/

/-- The settings that calls leave of the default ones, whether or not some are refused. -/
def ofCalls (calls : List Setting) : Settings := calls.foldl perform {}

theorem ofCalls_concat (calls : List Setting) (call : Setting) :
    ofCalls (calls ++ [call]) = (ofCalls calls).perform call := by
  rw [ofCalls, List.foldl_append]
  rfl

/-- What a call that is not refused keeps, all calls together keep. -/
theorem ofCalls_induction {P : Settings → Prop} (hdefault : P {})
    (happly : ∀ {s s' call}, P s → s.apply call = .ok s' → P s') (calls : List Setting) :
    P (ofCalls calls) := by
  induction calls using List.reverseRecOn with
  | nil => exact hdefault
  | append_singleton calls call ih =>
      rw [ofCalls_concat]
      cases h : call.accepted with
      | true => exact happly ih (perform_of_accepted h)
      | false => rwa [perform_of_refused h]

/-- Calls that are refused lead nowhere else. -/
theorem reachable_ofCalls (calls : List Setting) : (ofCalls calls).Reachable :=
  ofCalls_induction .default .apply calls

/-- The last call that was not refused and that set the bounds of an axis. -/
def lastBounding? (axis : Axis) (calls : List Setting) : Option Setting :=
  (calls.filter fun call => call.accepted && (call.bounds? axis).isSome).getLast?

theorem lastBounding?_concat (axis : Axis) (calls : List Setting) (call : Setting) :
    lastBounding? axis (calls ++ [call]) =
      if call.accepted && (call.bounds? axis).isSome then some call
      else lastBounding? axis calls := by
  rw [lastBounding?, List.filter_append]
  cases h : call.accepted && (call.bounds? axis).isSome with
  | true => simp [h]
  | false => simp [h, lastBounding?]

/-- The bounds of an axis are those that the last call set. -/
theorem bounds_ofCalls (axis : Axis) (calls : List Setting) :
    (ofCalls calls).bounds axis = (lastBounding? axis calls).bind (·.bounds? axis) := by
  induction calls using List.reverseRecOn with
  | nil => cases axis <;> rfl
  | append_singleton calls call ih =>
      rw [ofCalls_concat, lastBounding?_concat]
      cases h : call.accepted with
      | true =>
          rw [(geometry_of_apply (perform_of_accepted h)).1, ih]
          cases hb : call.bounds? axis with
          | some b => simp [hb]
          | none => simp
      | false => simp [perform_of_refused h, ih]

/-- A dimension that bounds its axis last is imposed. -/
theorem dimension_ofCalls {axis : Axis} {d : Dimension} (hd : d.axis? = some axis) {n : Int32}
    {calls : List Setting} (hlast : lastBounding? axis calls = some (.dimension d n)) :
    (ofCalls calls).dimension d = some n.toInt.toNat := by
  induction calls using List.reverseRecOn with
  | nil => cases hlast
  | append_singleton calls call ih =>
      rw [lastBounding?_concat] at hlast
      rw [ofCalls_concat]
      cases h : call.accepted with
      | false =>
          simp only [h, Bool.false_and, Bool.false_eq_true, if_false] at hlast
          rw [perform_of_refused h, ih hlast]
      | true =>
          rw [(geometry_of_apply (perform_of_accepted h)).2]
          split at hlast
          · cases hlast
            simp [Setting.dimension?]
          · next hno =>
            -- a call that sets no bounds of the axis does not set its dimension either
            have hnone : call.dimension? d = none := by
              cases call with
              | dimension d' m =>
                  refine if_neg fun he => hno ?_
                  subst he
                  simp [h, Setting.bounds?, hd]
              | _ => rfl
            rw [hnone, ih hlast]
            rfl

/-- What bounds an axis last was not refused. -/
theorem accepted_of_lastBounding {axis : Axis} {calls : List Setting} {call : Setting}
    (h : lastBounding? axis calls = some call) : call.accepted = true := by
  have hmem := List.mem_of_getLast? h
  rw [List.mem_filter, Bool.and_eq_true] at hmem
  exact hmem.2.1

/-! ### What the checks amount to -/

/-- What the calls check of settings, and what follows for the bounds. -/
structure Sound (s : Settings) : Prop extends Valid s where
  /-- Dimensions are positive 32-bit numbers. -/
  dimension_bounds : ∀ d n, s.dimension d = some n → 1 ≤ n ∧ n < 1 <<< 31
  /-- No more samples are imposed than a trace can have. -/
  dimZ_le : ∀ n, s.dimZ = some n → n ≤ 65535
  /-- Bounds are in order. -/
  bounds_le : ∀ axis b, s.bounds axis = some b → b.lowest ≤ b.highest

theorem sound_default : Sound {} where
  toValid := valid_default
  dimension_bounds d n h := by cases d <;> cases h
  dimZ_le n h := by cases h
  bounds_le axis b h := by cases axis <;> cases h

/-- A call that is not refused keeps the settings sound. -/
theorem Sound.apply {s s' : Settings} {call : Setting} (h : s.Sound) (hs : s.apply call = .ok s') :
    s'.Sound where
  toValid := h.toValid.apply hs
  dimension_bounds d n hn := by
    rw [(geometry_of_apply hs).2, Option.or_eq_some_iff, Option.map_eq_some_iff] at hn
    rcases hn with ⟨m, hm, rfl⟩ | ⟨-, hn⟩
    · have hpos := (dimension_pos_of_apply hs hm).1
      exact ⟨toNat_toInt_pos hpos, by have := m.toInt_lt; omega⟩
    · exact h.dimension_bounds d n hn
  dimZ_le n hn := by
    rw [show s'.dimZ = s'.dimension .z from rfl, (geometry_of_apply hs).2, Option.or_eq_some_iff,
      Option.map_eq_some_iff] at hn
    rcases hn with ⟨m, hm, rfl⟩ | ⟨-, hn⟩
    · have hmax := (dimension_pos_of_apply hs hm).2 rfl
      rw [maxSamples] at hmax
      omega
    · exact h.dimZ_le n hn
  bounds_le axis b hb := by
    rw [(geometry_of_apply hs).1, Option.or_eq_some_iff] at hb
    rcases hb with hb | ⟨-, hb⟩
    · exact bounds_le_of_apply hs hb
    · exact h.bounds_le axis b hb

theorem sound_ofCalls (calls : List Setting) : (ofCalls calls).Sound :=
  ofCalls_induction sound_default .apply calls

/-- The limit of a scan is a 64-bit number. -/
theorem Sound.maxTraceCount_lt {s : Settings} (h : s.Sound) : s.maxTraceCount < UInt64.size := by
  rw [maxTraceCount, traceCount?]
  split
  · next x y hx hy =>
    have hx' := (h.dimension_bounds .x x hx).2
    have hy' := (h.dimension_bounds .y y hy).2
    calc x * y < (1 <<< 31) * (1 <<< 31) := Nat.mul_lt_mul'' hx' hy'
      _ < UInt64.size := by decide
  · decide

end Settings

end SegY
