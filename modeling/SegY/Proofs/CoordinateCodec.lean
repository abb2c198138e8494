import SegY.Proofs.Conversion
import SegY.Proofs.TraceCodec

/-!
# Coordinates — written and read back

What a coordinate format accepts when it is written can be read back, with one exception.  As
integers coordinates are read back exactly.  As floats they are rounded to the nearest single, and
the largest ones are rounded to `2 ^ 31`, which is no coordinate any more: these are accepted when
a header is written, and the header cannot be read.

* `FloatType.exists_nearest_int`: the float nearest to an integer is one.
* `CoordinateFormat.decode_of_encode`: what is read back of a single coordinate.
* `TraceHeader.decode_of_toBytes`: what is read back of a header, in every coordinate format.
* `TraceHeader.toBytes_unreadable`: a header that is written and cannot be read.
-/

namespace SegY

/-! ### Floats nearest to integers -/

namespace FloatType

variable {t : FloatType} {n : ℤ}

/-- A nearest float is as near as every number of the format. -/
theorem IsNearest.le_of_fits {x : ℚ} {w : t.Word} {v : ℚ} (h : t.IsNearest x w v) {u : ℤ}
    (hu : |(u : ℚ)| ≤ t.largest) (hfits : t.Fits u) : |v - x| ≤ |u - x| :=
  h.nearest _ _ (t.value?_ofNumber_of_fits (Number.toRat?_ofInt u) hu hfits)

/-- The float nearest to an integer is one. -/
theorem exists_nearest_int (hn : |(n : ℚ)| ≤ t.largest) :
    ∃ k : ℤ, t.IsNearest n (t.ofNumber (.ofInt n)) k := by
  obtain ⟨v, hv⟩ := t.isNearest_ofNumber (Number.toRat?_ofInt n) hn
  rcases (fits_of_value? hv.value).eq_int_or_lt with ⟨k, rfl⟩ | hsmall
  · exact ⟨k, hv⟩
  rcases lt_or_ge |n| (2 ^ (t.fractionBits + 1)) with hfits | hlarge
  · have hexact := hv.le_of_fits hn (fits_of_int hfits)
    rw [sub_self, abs_zero, abs_nonpos_iff, sub_eq_zero] at hexact
    exact ⟨n, hexact ▸ hv⟩
  · -- the first number of the last binade without fractions is nearer
    exfalso
    have hpow : (2 : ℤ) ^ (t.fractionBits + 1) = 2 * 2 ^ t.fractionBits := pow_succ' ..
    have hpos : (0 : ℤ) < 2 ^ t.fractionBits := by positivity
    obtain ⟨u, hu, hun⟩ : ∃ u : ℤ,
        |u| = 2 ^ t.fractionBits ∧ |u - n| = |n| - 2 ^ t.fractionBits := by
      rcases abs_cases n with ⟨hn', hsign⟩ | ⟨hn', hsign⟩
      · refine ⟨2 ^ t.fractionBits, abs_of_pos hpos, ?_⟩
        rw [abs_of_nonpos (by omega)]
        omega
      · refine ⟨-2 ^ t.fractionBits, by rw [abs_neg, abs_of_pos hpos], ?_⟩
        rw [abs_of_nonneg (by omega)]
        omega
    have hufits : |u| < 2 ^ (t.fractionBits + 1) := by omega
    have hnear := hv.le_of_fits (abs_le_largest_of_int hufits) (fits_of_int hufits)
    have hun' : |(u : ℚ) - n| = |(n : ℚ)| - 2 ^ t.fractionBits := by exact_mod_cast hun
    have hback := abs_sub_abs_le_abs_sub (n : ℚ) v
    rw [abs_sub_comm] at hback
    linarith

end FloatType

/-! ### Single coordinates -/

namespace CoordinateFormat

/-- The smallest coordinate that rounds to a single above all coordinates. -/
def roundedUp : ℤ := 2 ^ 31 - 64

/-- Whether a coordinate is what reading gives for another one that was written. -/
def Recovers : CoordinateFormat → (written read : Int32) → Prop
  | ieeeFloat, n, m => FloatType.float32.IsNearest n.toInt
      (FloatType.float32.ofNumber (.ofInt n.toInt)) m.toInt
  | int32, n, m | uint32, n, m | ibmFloat, n, m => m = n

theorem toInt_bounds (n : Int32) : -2 ^ 31 ≤ n.toInt ∧ n.toInt < 2 ^ 31 :=
  ⟨n.le_toInt, n.toInt_lt⟩

theorem abs_le_largest {u : ℤ} (h : |u| ≤ 2 ^ 31) : |(u : ℚ)| ≤ FloatType.float32.largest := by
  have h' : |u| ≤ FloatType.float32.largest := h.trans (by decide)
  exact_mod_cast h'

/-- The single nearest to a coordinate is a coordinate, if it is not rounded up too far. -/
theorem exists_recovers {n : Int32} (hn : n.toInt < roundedUp) : ∃ m, Recovers ieeeFloat n m := by
  obtain ⟨hlow, hhigh⟩ := toInt_bounds n
  obtain ⟨k, hk⟩ := FloatType.float32.exists_nearest_int
    (abs_le_largest (abs_le.mpr ⟨hlow, hhigh.le⟩))
  -- it is no further away than the first and the last coordinate that singles have
  have hfirst : |k - n.toInt| ≤ |-2 ^ 31 - n.toInt| := by
    have h := hk.le_of_fits (u := -2 ^ 31) (abs_le_largest (by decide))
      ⟨-1, 31, by decide, by decide, by norm_num⟩
    exact_mod_cast h
  have hlast : |k - n.toInt| ≤ |(2 ^ 31 - 128) - n.toInt| := by
    have h := hk.le_of_fits (u := 2 ^ 31 - 128) (abs_le_largest (by decide))
      ⟨2 ^ 24 - 1, 7, by decide, by decide, by norm_num⟩
    exact_mod_cast h
  rw [abs_of_nonpos (a := -2 ^ 31 - n.toInt) (by omega), abs_le] at hfirst
  rw [roundedUp] at hn
  have hk' : k < 2 ^ 31 := by
    rcases abs_cases (2 ^ 31 - 128 - n.toInt) with ⟨h, -⟩ | ⟨h, -⟩ <;>
      rw [h, abs_le] at hlast <;> omega
  have hm : (Int32.ofInt k).toInt = k := Int32.toInt_ofInt_of_le (by omega) hk'
  exact ⟨Int32.ofInt k, by rwa [Recovers, hm]⟩

/-- The single that is `2 ^ 31`. -/
def beyond : FloatType.float32.Word := 0x4F000000

/-- All coordinates that are rounded up too far are rounded to the same single. -/
theorem ofNumber_of_roundedUp {n : Int32} (hn : roundedUp ≤ n.toInt) :
    FloatType.float32.ofNumber (.ofInt n.toInt) = beyond := by
  have table : ∀ k : Fin 64,
      FloatType.float32.ofNumber (.ofInt (roundedUp + k.val)) = beyond := by
    decide
  have hlt := (toInt_bounds n).2
  rw [roundedUp] at hn
  have h := table ⟨(n.toInt - roundedUp).toNat, by rw [roundedUp]; omega⟩
  rwa [Int.toNat_of_nonneg (by rw [roundedUp]; omega), add_sub_cancel] at h

/-- Why a coordinate that was rounded up too far cannot be read. -/
def tooLarge : ConversionError :=
  .unrepresentable .float32 (FloatType.float32.meaning beyond) .int32

theorem decode_store_single (order : ByteOrder) (w : SampleType.float32.Word) :
    ieeeFloat.decode order (SampleType.float32.store order w) =
      (SampleType.convert .int32 .float32 w).map Int32.ofBitVec := by
  rw [decode, SampleType.load_store]

section Single

variable {f : CoordinateFormat} {order : ByteOrder} {n : Int32} {b : Bytes}
  (h : f.encode order n = .ok b)
include h

/-- A coordinate is read back, as a float only if it is not rounded up too far. -/
theorem decode_of_encode (hn : f = ieeeFloat → n.toInt < roundedUp) :
    ∃ m, f.decode order b = .ok m ∧ f.Recovers n m := by
  have hvalue := SampleType.toRat?_number_integer .int32 n.toBitVec
  cases f with
  | int32 =>
    cases h
    exact ⟨n, congrArg Except.ok (FieldKind.load_int32 order n), rfl⟩
  | uint32 =>
    obtain ⟨w, hw, rfl⟩ := Except.map_eq_ok_iff.mp h
    have hw' := (SampleType.convert_integer_eq_ok_iff hvalue).mp hw
    refine ⟨n, ?_, rfl⟩
    rw [decode, SampleType.load_store]
    refine Except.map_eq_ok_iff.mpr ⟨n.toBitVec, ?_, rfl⟩
    exact (SampleType.convert_integer_eq_ok_iff (SampleType.toRat?_number_integer .uint32 w)).mpr
      hw'.symm
  | ieeeFloat =>
    cases h
    obtain ⟨m, hm⟩ := exists_recovers (hn rfl)
    refine ⟨m, ?_, hm⟩
    refine (decode_store_single order _).trans (Except.map_eq_ok_iff.mpr ⟨m.toBitVec, ?_, rfl⟩)
    have hvalue : (SampleType.float32.number _).toRat? = some (m.toInt : ℚ) := hm.value
    exact (SampleType.convert_integer_eq_ok_iff hvalue).mpr rfl
  | ibmFloat => cases h

/-- A coordinate that was rounded up too far is written, and cannot be read. -/
theorem decode_of_roundedUp (hf : f = ieeeFloat) (hn : roundedUp ≤ n.toInt) :
    f.decode order b = .error tooLarge := by
  subst hf
  cases h
  refine (decode_store_single order _).trans ?_
  refine (congrArg (fun w => (SampleType.convert .int32 .float32 w).map Int32.ofBitVec)
    (ofNumber_of_roundedUp hn)).trans ?_
  rfl

end Single

end CoordinateFormat

/-! ### Headers -/

namespace TraceHeader
open Bytes (Disjoint)
open CoordinateFormat (roundedUp tooLarge)

section Written

variable {order : ByteOrder} {c : CoordinateFormat} {h : TraceHeader} {b : Bytes}

/-- The coordinate format does not move anything. -/
theorem disjoint_layout_format (c : CoordinateFormat) :
    Disjoint HeaderKind.trace.length (layout { coordinateFormat := c }) :=
  disjoint_layout_default

variable (hb : h.toBytes order { coordinateFormat := c } = .ok b)
include hb

/-- A written header is read back, with floats as coordinates only if none of them is rounded up
too far. -/
theorem ofBytes_of_toBytes (hc : c = .ieeeFloat → ∀ d, (h.coordinate d).toInt < roundedUp)
    (position : Int) : ∃ read : Coordinate → Int32,
      (∀ d, c.Recovers (h.coordinate d) (read d)) ∧
      ofBytes order { coordinateFormat := c } position b =
        .ok { h.settled with coordinate := read } := by
  have hread : ∀ d, ∃ m, readCoordinate order { coordinateFormat := c } b d = .ok m ∧
      c.Recovers (h.coordinate d) m := fun d =>
    CoordinateFormat.decode_of_encode (slice_coordinate (disjoint_layout_format c) hb d)
      fun hf => hc hf d
  choose read hread hrecovers using hread
  exact ⟨read, hrecovers, ofBytes_of_readCoordinate (disjoint_layout_format c)
    (fun f => by cases f <;> rfl) rfl hb hread position⟩

/-- A header with a coordinate that was rounded up too far is written, and cannot be read. -/
theorem ofBytes_of_roundedUp (hc : c = .ieeeFloat) {d : Coordinate}
    (hd : roundedUp ≤ (h.coordinate d).toInt) (position : Int) :
    ofBytes order { coordinateFormat := c } position b = .error tooLarge := by
  have hslice := slice_coordinate (disjoint_layout_format c) hb
  cases he : ofBytes order { coordinateFormat := c } position b with
  | ok k =>
    have hread := readCoordinate_of_ofBytes he d
    rw [readCoordinate, CoordinateFormat.decode_of_roundedUp (hslice d) hc hd] at hread
    cases hread
  | error e =>
    -- the coordinate that cannot be read is one of those that were rounded up too far
    obtain ⟨d', hd'⟩ := exists_error_of_ofBytes he
    rw [readCoordinate] at hd'
    rcases lt_or_ge (h.coordinate d').toInt roundedUp with hsmall | hlarge
    · obtain ⟨m, hm, -⟩ := CoordinateFormat.decode_of_encode (hslice d') fun _ => hsmall
      rw [hm] at hd'
      cases hd'
    · rw [CoordinateFormat.decode_of_roundedUp (hslice d') hc hlarge] at hd'
      cases hd'
      rfl

/-- **What is written in a coordinate format and read again.**  In every byte order and coordinate
format, a header that was written is read back at every position: its fields, but that an invalid
code says nothing, its lines and its name are as they were, and so are coordinates as integers;
coordinates as floats are rounded to the nearest single.  Only if they are floats, and one of them
is at least `2 ^ 31 - 64`, then the header was written and cannot be read. -/
theorem decode_of_toBytes (position : Int) :
    ((c = .ieeeFloat → ∀ d, (h.coordinate d).toInt < 2 ^ 31 - 64) →
      ∃ k, decode order { coordinateFormat := c } position b = .ok k ∧
        k.field = h.settled.field ∧ k.inline = h.inline ∧ k.crossline = h.crossline ∧
        k.name = h.name ∧ ∀ d, c.Recovers (h.coordinate d) (k.coordinate d)) ∧
    (c = .ieeeFloat → (∃ d, 2 ^ 31 - 64 ≤ (h.coordinate d).toInt) →
      decode order { coordinateFormat := c } position b = .error (.conversion tooLarge)) := by
  have hlength : b.length = HeaderKind.trace.length := length_of_toBytes_standard hb rfl
  simp only [decode, if_pos hlength]
  constructor
  · intro hc
    obtain ⟨read, hrecovers, hread⟩ := ofBytes_of_toBytes hb hc position
    rw [hread, Except.mapError_ok]
    exact ⟨_, rfl, rfl, rfl, rfl, rfl, hrecovers⟩
  · rintro hc ⟨d, hd⟩
    rw [ofBytes_of_roundedUp hb hc hd position, Except.mapError_error]

end Written

/-- As floats the coordinates of every header can be written. -/
theorem exists_toBytes_of_ieeeFloat (order : ByteOrder) (h : TraceHeader) :
    ∃ b, h.toBytes order { coordinateFormat := .ieeeFloat } = .ok b :=
  ⟨_, toBytes_eq_ok_iff.mpr ⟨Coordinate.all.map fun d => (d.start {}, SampleType.float32.store order
    (SampleType.toFloat .float32 .int32 (h.coordinate d).toBitVec)),
    List.forall₂_map_right_iff.mpr (List.forall₂_same.mpr fun _ _ => rfl), rfl⟩⟩

/-- The first coordinate that is not a single is rounded, and the largest cannot be read. -/
theorem decode_of_toBytes_rounded :
    (∃ b k, (blank.setCoordinate .sourceX 16777217).toBytes .big
        { coordinateFormat := .ieeeFloat } = .ok b ∧
      decode .big { coordinateFormat := .ieeeFloat } 0 b = .ok k ∧
      (k.coordinate .sourceX).toInt = 16777216) ∧
    ∃ b, (blank.setCoordinate .sourceX 0x7FFFFFFF).toBytes .big
        { coordinateFormat := .ieeeFloat } = .ok b ∧
      decode .big { coordinateFormat := .ieeeFloat } 0 b = .error (.conversion tooLarge) := by
  constructor
  · obtain ⟨b, hb⟩ := exists_toBytes_of_ieeeFloat .big (blank.setCoordinate .sourceX 16777217)
    have hsmall : ∀ d ∈ Coordinate.all,
        ((blank.setCoordinate .sourceX 16777217).coordinate d).toInt < 2 ^ 31 - 64 := by
      decide
    obtain ⟨k, hk, -, -, -, -, hrecovers⟩ :=
      (decode_of_toBytes hb 0).1 fun _ d => hsmall d d.mem_all
    refine ⟨b, k, hb, hk, ?_⟩
    have hmeaning : FloatType.float32.meaning (FloatType.float32.ofNumber (.ofInt 16777217)) =
        .finite false 8388608 1 := by
      decide
    have hvalue := (hrecovers .sourceX).value
    change FloatType.float32.value? (FloatType.float32.ofNumber (.ofInt 16777217)) = _ at hvalue
    rw [FloatType.value?, hmeaning, Number.toRat?, Option.some.injEq, Number.withSign] at hvalue
    norm_num at hvalue
    exact_mod_cast hvalue.symm
  · obtain ⟨b, hb⟩ := exists_toBytes_of_ieeeFloat .big (blank.setCoordinate .sourceX 0x7FFFFFFF)
    exact ⟨b, hb, (decode_of_toBytes hb 0).2 rfl ⟨.sourceX, by decide⟩⟩

/-- **Not every header that is written can be read**: in a file with floats as coordinates the
largest coordinate cannot. -/
theorem toBytes_unreadable :
    ¬ ∀ (order : ByteOrder) (c : CoordinateFormat) (h : TraceHeader) (b : Bytes),
      h.toBytes order { coordinateFormat := c } = .ok b →
        ∃ k, decode order { coordinateFormat := c } 0 b = .ok k := by
  intro hall
  let h := TraceHeader.blank.setCoordinate .distance 0x7FFFFFFF
  obtain ⟨b, hb⟩ := exists_toBytes_of_ieeeFloat .little h
  obtain ⟨k, hk⟩ := hall .little .ieeeFloat h b hb
  have hlength : b.length = HeaderKind.trace.length := length_of_toBytes_standard hb rfl
  have hlarge : roundedUp ≤ (h.coordinate .distance).toInt := by decide
  rw [decode, if_pos hlength, ofBytes_of_roundedUp hb rfl hlarge] at hk
  cases hk

end TraceHeader

end SegY
