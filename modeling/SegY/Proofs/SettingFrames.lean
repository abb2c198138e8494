import SegY.Proofs.SettingCalls

/-!
# Settings — what a call changes

Settings are asked for part by part (`Settings.Part`, `Settings.get`), and every call is named for
one part (`Setting.part`).  `Setting.assign` is the call as it is made on settings in place, where
what was assigned before a test that fails stays assigned.

* `Setting.run_assign`: in place, too, a call that is refused changes nothing.
* `Settings.value?_of_apply`, `Settings.get_of_apply_of_not_touches`: what a call sets, and that it
  leaves the rest.
* `Settings.get_perform_perform`: a part that two calls do not both set is the same in either order.
* `Settings.assign_own_part`: all of this, and what happens to the bounds that dimensions derive.
-/

namespace SegY

/-! ### The parts of settings -/

namespace Settings

/-- A part of the settings, as a caller asks for it. -/
inductive Part where
  | byte (field : GeometryField)
  | order
  | endianness
  | format
  | coordinateFormat
  | coordinateScaling
  | traceId
  | depthUnits
  | coordinateUnits
  | dimension (d : Dimension)
  | bounds (axis : Axis)
  | step
  | origin
  | u
  | v
  | sampleInterval
  deriving DecidableEq

/-- What a part can be; one that may be missing is an option. -/
def Part.Value : Part → Type
  | byte _ => Nat
  | order => TraceOrder
  | endianness => Option ByteOrder
  | format => Option SampleFormat
  | coordinateFormat => CoordinateFormat
  | coordinateScaling => Option Int16
  | traceId => Option (Code .traceId)
  | depthUnits | coordinateUnits => Option (Code .measurementSystem)
  | dimension _ => Option Nat
  | bounds _ => Option Bounds
  | step => Nat
  | origin | u | v => Option Vector3
  | sampleInterval => Option FloatType.float64.Word

/-- A part of the settings. -/
def get (s : Settings) : (p : Part) → p.Value
  | .byte field => s.byte field
  | .order => s.order
  | .endianness => s.endianness
  | .format => s.format
  | .coordinateFormat => s.coordinateFormat
  | .coordinateScaling => s.coordinateScaling
  | .traceId => s.traceId
  | .depthUnits => s.depthUnits
  | .coordinateUnits => s.coordinateUnits
  | .dimension d => s.dimension d
  | .bounds axis => s.bounds axis
  | .step => s.step
  | .origin => s.origin
  | .u => s.u
  | .v => s.v
  | .sampleInterval => s.sampleInterval

/-- There is nothing more to settings than their parts. -/
theorem ext_get {s t : Settings} (h : ∀ p, s.get p = t.get p) : s = t := by
  cases s
  cases t
  rw [mk.injEq]
  exact ⟨funext fun field => h (.byte field), h .order, h .endianness, h .format,
    h .coordinateFormat, h .coordinateScaling, h .traceId, h .depthUnits, h .coordinateUnits,
    h (.dimension .x), h (.dimension .y), h (.dimension .z), h (.bounds .inline),
    h (.bounds .crossline), h .step, h .origin, h .u, h .v, h .sampleInterval⟩

end Settings

/-! ### Calls -/

namespace Setting

open Settings (Part)

/-- The part that a call is named for. -/
def part : Setting → Part
  | byte field _ => .byte field
  | order _ => .order
  | endianness _ => .endianness
  | format _ => .format
  | coordinateFormat _ => .coordinateFormat
  | coordinateScaling _ => .coordinateScaling
  | traceId _ => .traceId
  | depthUnits _ => .depthUnits
  | coordinateUnits _ => .coordinateUnits
  | dimension d _ => .dimension d
  | bounds axis _ _ => .bounds axis
  | step _ => .step
  | origin _ => .origin
  | u _ => .u
  | v _ => .v
  | sampleInterval _ => .sampleInterval

/-- What a call makes of the part that it is named for, unless it is refused. -/
def value? : (call : Setting) → Option call.part.Value
  | byte _ position =>
    if 0 ≤ position ∧ position.toInt ≤ GeometryField.lastByte then some position.toInt.toNat
    else none
  | order o => some o
  | endianness o => some (some o)
  | format f => some (some f)
  | coordinateFormat f => CoordinateFormat.ofSampleFormat? f
  | coordinateScaling scaling => (CoordinateScalar.toInt16 .float64 scaling).toOption.map some
  | traceId id => some (some id)
  | depthUnits units => some (some units)
  | coordinateUnits units => some (some units)
  | dimension d n =>
    if 0 < n ∧ (d = .z → n.toInt ≤ maxSamples) then some (some n.toInt.toNat) else none
  | bounds _ lowest highest => if lowest ≤ highest then some (some ⟨lowest, highest⟩) else none
  | step n => if n = 0 then none else some n.toNat
  | origin p => some (some p)
  | u p => some (some p)
  | v p => some (some p)
  | sampleInterval interval => some (some interval)

/-- The axis whose bounds a call derives. -/
def derived? : Setting → Option Axis
  | dimension d _ => d.axis?
  | _ => none

/-- Whether a call sets a part: the one it is named for, or bounds that it derives. -/
def Touches (call : Setting) (p : Part) : Prop :=
  p = call.part ∨ ∃ axis, call.derived? = some axis ∧ p = .bounds axis

/-- Whether a call derives the bounds that another one is named for. -/
def Derives (a b : Setting) : Prop := ∃ axis, a.derived? = some axis ∧ b.part = .bounds axis

/-- The call as it is made on settings in place: tests and assignments in their order. -/
def assign : Setting → EStateM SettingsError Settings Unit
  | byte field position => do
    if position < 0 then throw (.negativeByte field position.toInt)
    if GeometryField.lastByte < position.toInt then throw (.lateByte field position.toInt)
    modify fun s => { s with byte := fun g => if g = field then position.toInt.toNat else s.byte g }
  | order o => modify ({ · with order := o })
  | endianness o => modify ({ · with endianness := some o })
  | format f => modify ({ · with format := some f })
  | coordinateFormat f => do
    match CoordinateFormat.ofSampleFormat? f with
    | some c => modify ({ · with coordinateFormat := c })
    | none => throw (.coordinateFormat f)
  | coordinateScaling scaling => do
    match CoordinateScalar.toInt16 .float64 scaling with
    | .ok n => modify ({ · with coordinateScaling := some n })
    | .error _ => throw (.scaling (FloatType.float64.meaning scaling))
  | traceId id => modify ({ · with traceId := some id })
  | depthUnits units => modify ({ · with depthUnits := some units })
  | coordinateUnits units => modify ({ · with coordinateUnits := some units })
  | dimension d n => do
    if d = .z ∧ (maxSamples : Int) < n.toInt then throw (.tooManySamples n.toInt)
    if ¬ 0 < n then throw (.dimension d n.toInt)
    match d with
    | .x =>
      modify ({ · with dimX := some n.toInt.toNat })
      modify ({ · with crosslineBounds := some ⟨0, n - 1⟩ })
    | .y =>
      modify ({ · with dimY := some n.toInt.toNat })
      modify ({ · with inlineBounds := some ⟨0, n - 1⟩ })
    | .z => modify ({ · with dimZ := some n.toInt.toNat })
  | bounds axis lowest highest => do
    if ¬ lowest ≤ highest then throw (.bounds axis lowest.toInt highest.toInt)
    modify (·.withBounds axis ⟨lowest, highest⟩)
  | step n => do
    if n = 0 then throw .zeroStep
    modify ({ · with step := n.toNat })
  | origin p => modify ({ · with origin := some p })
  | u p => modify ({ · with u := some p })
  | v p => modify ({ · with v := some p })
  | sampleInterval interval => modify ({ · with sampleInterval := some interval })

/-- The call in place, by a caller who goes on after an error. -/
def attempt (call : Setting) : EStateM SettingsError Settings Unit :=
  tryCatch call.assign fun _ => pure ()

/-- How a call in place ends that does what is on the right: an error leaves the settings. -/
def ending (s : Settings) :
    Except SettingsError Settings → EStateM.Result SettingsError Settings Unit
  | .ok s' => .ok () s'
  | .error e => .error e s

/-- In place, too, a call that is refused changes nothing. -/
theorem run_assign (call : Setting) (s : Settings) :
    call.assign.run s = ending s (s.apply call) := by
  cases call with
  | byte field position =>
      simp only [assign, Settings.apply]
      split
      · rfl
      · split <;> rfl
  | coordinateFormat f =>
      simp only [assign, Settings.apply]
      cases CoordinateFormat.ofSampleFormat? f <;> rfl
  | coordinateScaling scaling =>
      simp only [assign, Settings.apply]
      cases CoordinateScalar.toInt16 .float64 scaling <;> rfl
  | dimension d n =>
      simp only [assign, Settings.apply]
      split
      · rfl
      · by_cases hn : 0 < n
        · rw [if_neg (not_not.mpr hn), if_pos hn]
          cases d <;> rfl
        · rw [if_pos hn, if_neg hn]
          rfl
  | bounds axis lowest highest =>
      simp only [assign, Settings.apply]
      by_cases h : lowest ≤ highest
      · rw [if_neg (not_not.mpr h), if_pos h]
        rfl
      · rw [if_pos h, if_neg h]
        rfl
  | step n =>
      simp only [assign, Settings.apply]
      split <;> rfl
  | _ => rfl

theorem run_assign_eq_ok_iff {call : Setting} {s s' : Settings} :
    call.assign.run s = .ok () s' ↔ s.apply call = .ok s' := by
  rw [run_assign]
  cases s.apply call <;> simp [ending]

theorem run_assign_eq_error_iff {call : Setting} {s s' : Settings} {e : SettingsError} :
    call.assign.run s = .error e s' ↔ s.apply call = .error e ∧ s' = s := by
  rw [run_assign]
  cases s.apply call <;> simp [ending, eq_comm]

/-- Who goes on after an error has the settings of before. -/
theorem run_attempt (call : Setting) (s : Settings) :
    call.attempt.run s = .ok () (s.perform call) := by
  have h : call.assign s = ending s (s.apply call) := call.run_assign s
  show EStateM.tryCatch call.assign _ s = _
  rw [EStateM.tryCatch, h, Settings.perform]
  cases s.apply call <;> rfl

theorem run_attempts (calls : List Setting) (s : Settings) :
    (calls.forM attempt).run s = .ok () (calls.foldl Settings.perform s) := by
  induction calls generalizing s with
  | nil => rfl
  | cons call rest ih =>
      have h : call.attempt s = .ok () (s.perform call) := call.run_attempt s
      show EStateM.bind call.attempt (fun _ => rest.forM attempt) s = _
      rw [EStateM.bind, h]
      exact ih _

/-- Without the calls that are refused there is no error. -/
theorem run_accepted (calls : List Setting) (s : Settings) :
    ((calls.filter accepted).forM assign).run s = .ok () (calls.foldl Settings.perform s) := by
  induction calls generalizing s with
  | nil => rfl
  | cons call rest ih =>
      cases hcall : call.accepted with
      | false =>
          rw [List.filter_cons_of_neg (by simp [hcall]), ih, List.foldl_cons,
            Settings.perform_of_refused hcall]
      | true =>
          have h : call.assign s = .ok () (s.perform call) :=
            run_assign_eq_ok_iff.mpr (Settings.perform_of_accepted hcall)
          rw [List.filter_cons_of_pos hcall]
          show EStateM.bind call.assign (fun _ => (rest.filter accepted).forM assign) s = _
          rw [EStateM.bind, h]
          exact ih _

end Setting

namespace Settings

/-! ### What a call sets -/

section Apply

variable {s s' : Settings} {call : Setting} (hs : s.apply call = .ok s')
include hs

/-- A call sets the part that it is named for. -/
theorem value?_of_apply : call.value? = some (s'.get call.part) := by
  cases call with
  | byte field position =>
      obtain ⟨hlow, hhigh, rfl⟩ := apply_byte_eq_ok_iff.mp hs
      exact (if_pos ⟨hlow, hhigh⟩).trans (congrArg some (if_pos rfl).symm)
  | coordinateFormat f =>
      obtain ⟨c, hc, rfl⟩ := apply_coordinateFormat_eq_ok_iff.mp hs
      exact hc
  | coordinateScaling scaling =>
      obtain ⟨n, hn, rfl⟩ := apply_coordinateScaling_eq_ok_iff.mp hs
      rw [Setting.value?, hn]
      rfl
  | dimension d n =>
      obtain ⟨hmax, hpos, rfl⟩ := apply_dimension_eq_ok_iff.mp hs
      refine (if_pos ⟨hpos, hmax⟩).trans (congrArg some ?_)
      exact ((dimension_withDimension s d d n).trans (if_pos rfl)).symm
  | bounds axis lowest highest =>
      obtain ⟨hle, rfl⟩ := apply_bounds_eq_ok_iff.mp hs
      refine (if_pos hle).trans (congrArg some ?_)
      exact ((bounds_withBounds s axis axis _).trans (if_pos rfl)).symm
  | step n =>
      obtain ⟨hn, rfl⟩ := apply_step_eq_ok_iff.mp hs
      exact if_neg hn
  | _ =>
      cases hs
      rfl

/-- A call leaves all parts that it does not set. -/
theorem get_of_apply_of_not_touches {p : Part} (hp : ¬ call.Touches p) : s'.get p = s.get p := by
  obtain ⟨hpart, hderived⟩ := not_or.mp hp
  cases call with
  | byte field position =>
      obtain ⟨-, -, rfl⟩ := apply_byte_eq_ok_iff.mp hs
      cases p with
      | byte g => exact if_neg fun h => hpart (congrArg Part.byte h)
      | _ => rfl
  | coordinateFormat f =>
      obtain ⟨c, -, rfl⟩ := apply_coordinateFormat_eq_ok_iff.mp hs
      cases p with
      | coordinateFormat => exact absurd rfl hpart
      | _ => rfl
  | coordinateScaling scaling =>
      obtain ⟨n, -, rfl⟩ := apply_coordinateScaling_eq_ok_iff.mp hs
      cases p with
      | coordinateScaling => exact absurd rfl hpart
      | _ => rfl
  | dimension d n =>
      obtain ⟨-, -, rfl⟩ := apply_dimension_eq_ok_iff.mp hs
      cases p with
      | dimension d' =>
          exact (dimension_withDimension s d d' n).trans
            (if_neg fun h => hpart (congrArg Part.dimension h.symm))
      | bounds axis =>
          exact (bounds_withDimension s d n axis).trans
            (if_neg fun h => hderived ⟨axis, h, rfl⟩)
      | _ => cases d <;> rfl
  | bounds axis lowest highest =>
      obtain ⟨-, rfl⟩ := apply_bounds_eq_ok_iff.mp hs
      cases p with
      | dimension d => exact dimension_withBounds ..
      | bounds axis' =>
          exact (bounds_withBounds s axis axis' _).trans
            (if_neg fun h => hpart (congrArg Part.bounds h.symm))
      | _ => cases axis <;> rfl
  | step n =>
      obtain ⟨-, rfl⟩ := apply_step_eq_ok_iff.mp hs
      cases p with
      | step => exact absurd rfl hpart
      | _ => rfl
  | _ =>
      cases hs
      cases p <;> first | rfl | exact absurd rfl hpart

/-- A call sets the bounds that are its own, or that it derives. -/
theorem get_bounds_of_apply {axis : Axis} {b : Bounds} (hb : call.bounds? axis = some b) :
    s'.get (.bounds axis) = some b := by
  have hbounds := (geometry_of_apply hs).1 axis
  rw [hb] at hbounds
  exact hbounds

end Apply

/-- What a call sets does not depend on the settings it meets. -/
theorem get_of_apply_of_touches {s t s' t' : Settings} {call : Setting}
    (hs : s.apply call = .ok s') (ht : t.apply call = .ok t') {p : Part} (hp : call.Touches p) :
    s'.get p = t'.get p := by
  rcases hp with rfl | ⟨axis, haxis, rfl⟩
  · exact Option.some.inj ((value?_of_apply hs).symm.trans (value?_of_apply ht))
  · cases call with
    | dimension d n =>
        have hb : (Setting.dimension d n).bounds? axis = some ⟨0, n - 1⟩ := if_pos haxis
        rw [get_bounds_of_apply hs hb, get_bounds_of_apply ht hb]
    | _ => cases haxis

/-! ### Two calls -/

section Perform

variable {s t : Settings} {a b : Setting} {p : Part}

theorem get_perform_of_not_touches (hp : ¬ a.Touches p) : (s.perform a).get p = s.get p := by
  cases ha : a.accepted with
  | true => exact get_of_apply_of_not_touches (perform_of_accepted ha) hp
  | false => rw [perform_of_refused ha]

/-- After a call a part depends on nothing but the same part before it. -/
theorem get_perform_congr (h : s.get p = t.get p) : (s.perform a).get p = (t.perform a).get p := by
  by_cases hp : a.Touches p
  · cases ha : a.accepted with
    | true => exact get_of_apply_of_touches (perform_of_accepted ha) (perform_of_accepted ha) hp
    | false => rw [perform_of_refused ha, perform_of_refused ha, h]
  · rw [get_perform_of_not_touches hp, get_perform_of_not_touches hp, h]

/-- A part that two calls do not both set is the same in either order. -/
theorem get_perform_perform (hp : ¬ (a.Touches p ∧ b.Touches p)) :
    ((s.perform a).perform b).get p = ((s.perform b).perform a).get p := by
  by_cases hb : b.Touches p
  · -- `a` leaves the part, so what `b` makes of it does not depend on `a`
    have ha : ¬ a.Touches p := fun ha => hp ⟨ha, hb⟩
    calc ((s.perform a).perform b).get p
        = (s.perform b).get p := get_perform_congr (get_perform_of_not_touches ha)
      _ = ((s.perform b).perform a).get p := (get_perform_of_not_touches ha).symm
  · calc ((s.perform a).perform b).get p
        = (s.perform a).get p := get_perform_of_not_touches hb
      _ = ((s.perform b).perform a).get p :=
          get_perform_congr (get_perform_of_not_touches hb).symm

end Perform

end Settings

namespace Setting

theorem part_eq_of_derived {a b : Setting} {axis : Axis} (ha : a.derived? = some axis)
    (hb : b.derived? = some axis) : a.part = b.part := by
  cases a with
  | dimension d n =>
      cases b with
      | dimension d' n' => cases d <;> cases d' <;> cases ha <;> first | rfl | cases hb
      | _ => cases hb
  | _ => cases ha

/-- Calls that are named for different parts set none both, unless one derives the other. -/
theorem not_touches_both {a b : Setting} (hpart : a.part ≠ b.part) (hab : ¬ a.Derives b)
    (hba : ¬ b.Derives a) (p : Settings.Part) : ¬ (a.Touches p ∧ b.Touches p) := by
  rintro ⟨rfl | ⟨axis, ha, rfl⟩, hb | ⟨axis', hb, hp⟩⟩
  · exact hpart hb
  · exact hba ⟨axis', hb, hp⟩
  · exact hab ⟨axis, ha, hb.symm⟩
  · cases hp
    exact hpart (part_eq_of_derived ha hb)

end Setting

namespace Settings

/-- A dimension and bounds that are set are the same in either order, apart from these bounds. -/
theorem get_dimension_bounds {s : Settings} {axis : Axis} {n lowest highest : Int32}
    (d : Dimension) {p : Part} (hp : p ≠ .bounds axis) :
    ((s.perform (.dimension d n)).perform (.bounds axis lowest highest)).get p =
      ((s.perform (.bounds axis lowest highest)).perform (.dimension d n)).get p := by
  apply get_perform_perform
  rintro ⟨-, hown | ⟨axis', hderived, -⟩⟩
  · exact hp hown
  · cases hderived

/-- Of a dimension and the bounds of its axis the later one sets these bounds. -/
theorem later_bounds {s : Settings} {d : Dimension} {axis : Axis} (hd : d.axis? = some axis)
    {n lowest highest : Int32} :
    let a := Setting.dimension d n
    let b := Setting.bounds axis lowest highest
    if a.accepted ∧ b.accepted then
      ((s.perform a).perform b).get (.bounds axis) = some ⟨lowest, highest⟩ ∧
        ((s.perform b).perform a).get (.bounds axis) = some ⟨0, n - 1⟩
    else (s.perform a).perform b = (s.perform b).perform a := by
  intro a b
  split
  · next h =>
    exact ⟨get_bounds_of_apply (perform_of_accepted h.2) (if_pos rfl),
      get_bounds_of_apply (perform_of_accepted h.1) (if_pos hd)⟩
  · next h =>
    rw [not_and_or, Bool.not_eq_true, Bool.not_eq_true] at h
    rcases h with ha | hb
    · rw [perform_of_refused ha, perform_of_refused ha]
    · rw [perform_of_refused hb, perform_of_refused hb]

/-- **A call changes its own part, or nothing.**  For all settings and every call, made in place: if
it is refused the settings are those of before.  If not, the part that it is named for has the value
of the call, the bounds of the axis that a dimension counts are those of its lines, and every other
part is as it was.

So a caller who goes on after errors gets the settings that the calls make that are not refused, and
two calls that are named for different parts can be exchanged.  The exception is a dimension and the
bounds of the axis that it counts: the later one of the two sets the bounds, and all else is the
same. -/
theorem assign_own_part (s : Settings) :
    (∀ (call : Setting) e s', call.assign.run s = .error e s' → s.apply call = .error e ∧ s' = s) ∧
    (∀ (call : Setting) s', call.assign.run s = .ok () s' → s.apply call = .ok s' ∧
      call.value? = some (s'.get call.part) ∧
      (∀ d n axis, call = .dimension d n → d.axis? = some axis →
        s'.get (.bounds axis) = some ⟨0, n - 1⟩) ∧
      ∀ p, ¬ call.Touches p → s'.get p = s.get p) ∧
    (∀ call : Setting, (∃ s', call.assign.run s = .ok () s') ↔ call.accepted = true) ∧
    (∀ calls : List Setting, ∃ s', (calls.forM Setting.attempt).run s = .ok () s' ∧
      ((calls.filter Setting.accepted).forM Setting.assign).run s = .ok () s') ∧
    (∀ a b : Setting, a.part ≠ b.part → ¬ a.Derives b → ¬ b.Derives a →
      ([a, b].forM Setting.attempt).run s = ([b, a].forM Setting.attempt).run s) ∧
    ∀ (d : Dimension) axis, d.axis? = some axis → ∀ n lowest highest s₁ s₂,
      ([.dimension d n, .bounds axis lowest highest].forM Setting.attempt).run s = .ok () s₁ →
      ([.bounds axis lowest highest, .dimension d n].forM Setting.attempt).run s = .ok () s₂ →
      (∀ p, p ≠ .bounds axis → s₁.get p = s₂.get p) ∧
      if (Setting.dimension d n).accepted ∧ (Setting.bounds axis lowest highest).accepted then
        s₁.get (.bounds axis) = some ⟨lowest, highest⟩ ∧ s₂.get (.bounds axis) = some ⟨0, n - 1⟩
      else s₁ = s₂ := by
  refine ⟨fun call e s' h => Setting.run_assign_eq_error_iff.mp h, fun call s' h => ?_,
    fun call => ?_, fun calls => ⟨_, Setting.run_attempts calls s, Setting.run_accepted calls s⟩,
    fun a b hpart hab hba => ?_, fun d axis hd n lowest highest s₁ s₂ h₁ h₂ => ?_⟩
  · have hs := Setting.run_assign_eq_ok_iff.mp h
    refine ⟨hs, value?_of_apply hs, fun d n axis hcall hd => ?_,
      fun p hp => get_of_apply_of_not_touches hs hp⟩
    subst hcall
    exact get_bounds_of_apply hs (if_pos hd)
  · simp only [Setting.run_assign_eq_ok_iff, ← isOk_apply s call, Except.isOk_iff]
  · rw [Setting.run_attempts, Setting.run_attempts]
    exact congrArg _ (ext_get fun p =>
      get_perform_perform (Setting.not_touches_both hpart hab hba p))
  · rw [Setting.run_attempts] at h₁ h₂
    cases h₁
    cases h₂
    exact ⟨fun p hp => get_dimension_bounds d hp, later_bounds hd⟩

/-- Ten crosslines and bounds on crosslines, in both orders and among other bounds; too many samples
are refused. -/
theorem assign_own_part_tenCrosslines :
    let s := ofCalls [.bounds .inline 3 7]
    let dimension : Setting := .dimension .x 10
    let bounds : Setting := .bounds .crossline 1 100
    ∃ s₁ s₂ s₃, dimension.assign.run s = .ok () s₃ ∧
      s₃.get (.dimension .x) = some 10 ∧ s₃.get (.bounds .crossline) = some ⟨0, 9⟩ ∧
      s₃.get (.bounds .inline) = s.get (.bounds .inline) ∧
      ([dimension, bounds].forM Setting.attempt).run s = .ok () s₁ ∧
      ([bounds, dimension].forM Setting.attempt).run s = .ok () s₂ ∧
      s₁.get (.bounds .crossline) = some ⟨1, 100⟩ ∧ s₂.get (.bounds .crossline) = some ⟨0, 9⟩ ∧
      s₁.get (.dimension .x) = s₂.get (.dimension .x) ∧
      ([dimension, .step 3].forM Setting.attempt).run s =
        ([.step 3, dimension].forM Setting.attempt).run s ∧
      ∀ e s', (Setting.dimension .z 65536).assign.run s = .error e s' → s' = s := by
  intro s dimension bounds
  obtain ⟨hrefused, haccepted, hok, -, hcomm, hlater⟩ := assign_own_part s
  obtain ⟨s₃, hs₃⟩ := (hok dimension).mpr rfl
  obtain ⟨-, hvalue, hderived, hframe⟩ := haccepted dimension s₃ hs₃
  obtain ⟨hsame, hbounds⟩ := hlater .x .crossline rfl 10 1 100 _ _ (Setting.run_attempts _ s)
    (Setting.run_attempts _ s)
  rw [if_pos ⟨rfl, rfl⟩] at hbounds
  refine ⟨_, _, s₃, hs₃, (Option.some.inj hvalue).symm, hderived .x 10 .crossline rfl rfl,
    hframe _ ?_, Setting.run_attempts _ s, Setting.run_attempts _ s, hbounds.1, hbounds.2,
    hsame _ (by decide), hcomm dimension (.step 3) (by decide) ?_ ?_,
    fun e s' h => (hrefused _ e s' h).2⟩
  · rintro (h | ⟨axis, haxis, h⟩)
    · cases h
    · cases haxis
      cases h
  · rintro ⟨axis, -, h⟩
    cases h
  · rintro ⟨axis, h, -⟩
    cases h

end Settings

end SegY
