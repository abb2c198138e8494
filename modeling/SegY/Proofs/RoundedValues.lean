import Mathlib.Algebra.Order.Round
import Mathlib.Data.Rat.Floor
import SegY.Proofs.NearestFloat

/-!
# Floats — rounding sees a sign and a magnitude

A number is rounded as the quotient of two integers, but the quotient alone matters, and not by
which integers it is given (`FloatType.round_congr`).  So a number can be said by its sign and its
magnitude (`Number.HasMagnitude`), which a zero has as well.

* `IsNearestInteger.unique`: there is one nearest integer, with ties to the even one.
* `FloatType.saturate_congr`: what a number becomes depends on these two alone.
* `FloatType.IsNearest.abs_sub_le`: how far the nearest float can be.
* `FloatType.hasMagnitude_ofNumber_of_fits`: a number that the format has keeps both.
* `FloatType.exists_hasMagnitude_ofNumber`: below the normal numbers the magnitude becomes the
  nearest multiple of the smallest one.
-/

namespace SegY

/-! ### The nearest integer -/

/-- Whether a natural number is the integer nearest to a number; in a tie it is even. -/
structure IsNearestInteger (x : ℚ) (k : ℕ) : Prop where
  nearest : ∀ j : ℤ, |(k : ℚ) - x| ≤ |(j : ℚ) - x|
  even : ∀ j : ℤ, j ≠ k → |(j : ℚ) - x| = |(k : ℚ) - x| → k % 2 = 0

namespace IsNearestInteger

variable {x : ℚ} {j k : ℕ}

theorem abs_sub_le_half (h : IsNearestInteger x k) : |(k : ℚ) - x| ≤ 1 / 2 := by
  refine (h.nearest (round x)).trans ?_
  rw [abs_sub_comm]
  exact abs_sub_round x

/-- There is only one. -/
theorem unique (hj : IsNearestInteger x j) (hk : IsNearestInteger x k) : j = k := by
  by_contra hne
  have hjk : |(j : ℚ) - x| ≤ |(k : ℚ) - x| := by exact_mod_cast hj.nearest k
  have hkj : |(k : ℚ) - x| ≤ |(j : ℚ) - x| := by exact_mod_cast hk.nearest j
  have htie : |(j : ℚ) - x| = |(k : ℚ) - x| := le_antisymm hjk hkj
  have hj' : j % 2 = 0 := hj.even k (by omega) (by exact_mod_cast htie.symm)
  have hk' : k % 2 = 0 := hk.even j (by omega) (by exact_mod_cast htie)
  -- two even numbers are further apart than both can be from the quotient
  have hclose : |(j : ℚ) - k| ≤ 1 := by
    calc |(j : ℚ) - k| ≤ |(j : ℚ) - x| + |x - k| := abs_sub_le ..
      _ ≤ 1 / 2 + 1 / 2 := by
          rw [abs_sub_comm x]
          exact add_le_add hj.abs_sub_le_half hk.abs_sub_le_half
      _ = 1 := by norm_num
  have hclose' : |(j : ℤ) - k| ≤ 1 := by exact_mod_cast hclose
  rw [abs_le] at hclose'
  omega

/-- An integer that is rounded to is at least an even one exactly if the number is at most a half
below that, since a tie goes to the even one. -/
theorem even_le_iff {r : ℕ} (h : IsNearestInteger x r) (hj : j % 2 = 0) :
    j ≤ r ↔ (j : ℚ) - 1 / 2 ≤ x := by
  obtain ⟨hlow, hhigh⟩ := abs_le.mp h.abs_sub_le_half
  constructor
  · intro hle
    have hle' : (j : ℚ) ≤ r := by exact_mod_cast hle
    linarith
  · intro hx
    by_contra hlt
    have hsucc : (r : ℚ) + 1 ≤ j := by exact_mod_cast not_le.mp hlt
    -- the number is in the middle between the two integers, so both would be even
    have hr : (r : ℚ) = j - 1 := by linarith
    have hmiddle : x = j - 1 / 2 := by linarith
    have htie : |((j : ℤ) : ℚ) - x| = |(r : ℚ) - x| := by
      rw [hr, hmiddle, Int.cast_natCast, abs_of_nonneg (by linarith), abs_of_nonpos (by linarith)]
      ring
    have heven := h.even j (by omega) htie
    have hr' : r + 1 = j := by exact_mod_cast (by linarith : (r : ℚ) + 1 = j)
    omega

end IsNearestInteger

theorem isNearestInteger_roundDiv (n : ℕ) {d : ℕ} (hd : 0 < d) :
    IsNearestInteger (n / d) (roundDiv n d) :=
  ⟨abs_roundDiv_sub_le n hd, fun _ => roundDiv_even_of_tie n hd⟩

/-- Equal quotients are rounded to one integer. -/
theorem roundDiv_congr {n d n' d' : ℕ} (hd : 0 < d) (hd' : 0 < d')
    (h : (n / d : ℚ) = n' / d') : roundDiv n d = roundDiv n' d' :=
  (isNearestInteger_roundDiv n hd).unique (h ▸ isNearestInteger_roundDiv n' hd')

/-! ### Signs and magnitudes -/

namespace Number

/-- Whether a number is finite, with this sign and this magnitude. -/
def HasMagnitude (n : Number) (negative : Bool) (x : ℚ) : Prop :=
  ∃ (m : ℕ) (e : ℤ), n = .finite negative m e ∧ (m : ℚ) * 2 ^ e = x

variable {n : Number} {negative : Bool} {x : ℚ}

theorem withSign_inj {y : ℚ} : withSign negative x = withSign negative y ↔ x = y :=
  ⟨fun h => by simpa using congrArg (withSign negative) h, congrArg _⟩

/-- The sign of a number that is not zero is that of its value. -/
theorem hasMagnitude_of_ne_zero (h : n.toRat? = some x) (hx : x ≠ 0) :
    n.HasMagnitude (decide (x < 0)) |x| := by
  cases n with
  | finite negative m e =>
    cases h
    have hnonneg : (0 : ℚ) ≤ m * 2 ^ e := by positivity
    refine ⟨m, e, ?_, by rw [abs_withSign, abs_of_nonneg hnonneg]⟩
    cases negative with
    | false => simpa [withSign] using hnonneg
    | true =>
      have hne : (0 : ℚ) ≠ m * 2 ^ e := by simpa [withSign, eq_comm] using hx
      simpa [withSign] using hnonneg.lt_of_ne hne
  | infinite | nan => cases h

namespace HasMagnitude

theorem toRat?_eq (h : n.HasMagnitude negative x) : n.toRat? = some (withSign negative x) := by
  obtain ⟨m, e, rfl, rfl⟩ := h
  rfl

theorem nonneg (h : n.HasMagnitude negative x) : 0 ≤ x := by
  obtain ⟨m, e, -, rfl⟩ := h
  positivity

theorem abs_withSign (h : n.HasMagnitude negative x) : |withSign negative x| = x := by
  rw [Number.abs_withSign, abs_of_nonneg h.nonneg]

end HasMagnitude

end Number

namespace FloatType
open Number (HasMagnitude)

variable (t : FloatType)

/-! ### Equal quotients -/

section Congr

variable {num den num' den' : ℕ} (hden : 0 < den) (hden' : 0 < den')
  (h : (num / den : ℚ) = num' / den')
include hden hden' h

theorem floorLog2_congr (hnum : num ≠ 0) (hnum' : num' ≠ 0) :
    floorLog2 num den = floorLog2 num' den' := by
  have hbelow : ∀ {n d n' d' : ℕ}, n ≠ 0 → 0 < d → n' ≠ 0 → 0 < d' → (n / d : ℚ) = n' / d' →
      floorLog2 n d < floorLog2 n' d' + 1 := fun hn hd hn' hd' h =>
    (zpow_lt_zpow_iff_right₀ one_lt_two).mp
      ((zpow_floorLog2_le hn hd).trans_lt (h ▸ lt_zpow_floorLog2_succ hn' hd'))
  have h₁ := hbelow hnum hden hnum' hden' h
  have h₂ := hbelow hnum' hden' hnum hden h.symm
  omega

/-- Equal quotients are rounded to one float. -/
theorem round_congr (negative : Bool) : t.round negative num den = t.round negative num' den' := by
  have hpos : (0 : ℚ) < den := by exact_mod_cast hden
  have hpos' : (0 : ℚ) < den' := by exact_mod_cast hden'
  rw [round, round]
  by_cases hnum : num = 0
  · have hnum' : num' = 0 := by simpa [hnum, hpos'.ne', eq_comm] using h
    rw [hnum, hnum', magnitude, magnitude, if_pos rfl, if_pos rfl]
  · have hnum' : num' ≠ 0 := by
      rintro rfl
      exact hnum (by simpa [hpos.ne'] using h)
    have hquantum : t.quantum num den = t.quantum num' den' := by
      rw [quantum, quantum, floorLog2_congr hden hden' h hnum hnum']
    have hquanta : t.quanta num den = t.quanta num' den' := by
      rw [quanta, quanta, hquantum]
      refine roundDiv_congr (shiftLeft_pos hden _) (shiftLeft_pos hden' _) ?_
      rw [shiftLeft_div_shiftLeft_neg, shiftLeft_div_shiftLeft_neg, h]
    rw [t.magnitude_eq hnum, t.magnitude_eq hnum', hquantum, hquanta]

end Congr

variable {t} {n n' : Number} {negative : Bool} {x : ℚ}

/-- A float depends on the sign and the magnitude of a number alone. -/
theorem ofNumber_congr (h : n.HasMagnitude negative x) (h' : n'.HasMagnitude negative x) :
    t.ofNumber n = t.ofNumber n' := by
  obtain ⟨m, e, rfl, hm⟩ := h
  obtain ⟨m', e', rfl, hm'⟩ := h'
  refine t.round_congr (Number.denominator_pos e) (Number.denominator_pos e') ?_ negative
  rw [Number.numerator_div_denominator, Number.numerator_div_denominator, hm, hm']

/-- The value of a float depends on that of the number alone. -/
theorem value?_ofNumber_congr (hn : n.toRat? = some x) (hn' : n'.toRat? = some x)
    (hx : |x| ≤ t.largest) : t.value? (t.ofNumber n) = t.value? (t.ofNumber n') := by
  rcases eq_or_ne x 0 with rfl | hne
  · have hfits : t.Fits 0 := ⟨0, t.lowestExponent, by simp⟩
    rw [t.value?_ofNumber_of_fits hn hx hfits, t.value?_ofNumber_of_fits hn' hx hfits]
  · rw [ofNumber_congr (Number.hasMagnitude_of_ne_zero hn hne)
      (Number.hasMagnitude_of_ne_zero hn' hne)]

/-! ### Signs and magnitudes of floats -/

theorem isNearestInteger_quanta (num : ℕ) {den : ℕ} (hden : 0 < den) :
    IsNearestInteger (num / den / 2 ^ t.quantum num den) (t.quanta num den) := by
  rw [← shiftLeft_div_shiftLeft_neg]
  exact isNearestInteger_roundDiv _ (shiftLeft_pos hden _)

/-- The quantum of a quotient below the normal numbers is the smallest number. -/
theorem quantum_eq_lowestExponent {num den : ℕ} (hnum : num ≠ 0) (hden : 0 < den)
    (hlt : (num / den : ℚ) < 2 ^ (t.lowestExponent + t.fractionBits)) :
    t.quantum num den = t.lowestExponent := by
  have h := (zpow_lt_zpow_iff_right₀ one_lt_two).mp
    ((zpow_floorLog2_le hnum hden).trans_lt hlt)
  rw [quantum]
  omega

/-- A rounded quotient keeps its sign, and its magnitude is a count of quanta. -/
theorem hasMagnitude_round {num den : ℕ} (hden : 0 < den) (hle : (num / den : ℚ) ≤ t.largest)
    (negative : Bool) : (t.meaning (t.round negative num den)).HasMagnitude negative
      (t.quanta num den * 2 ^ t.quantum num den) := by
  obtain ⟨m, e, hfinite⟩ : ∃ m e, t.meaning (t.round negative num den) = .finite negative m e := by
    have hlt : t.magnitude num den < t.infinity := by
      by_cases hnum : num = 0
      · rw [magnitude, if_pos hnum]
        cases t <;> decide
      · rw [t.magnitude_eq hnum]
        exact (min_le_right _ _).trans_lt (t.magnitude_lt hden hle hnum)
    rw [round, t.meaning_pattern negative hlt]
    split <;> exact ⟨_, _, rfl⟩
  have hvalue := (t.value?_round hden hle negative).1
  rw [value?, hfinite, Number.toRat?, Option.some.injEq, Number.withSign_inj] at hvalue
  exact ⟨m, e, hfinite, hvalue⟩

section OfNumber

variable (h : n.HasMagnitude negative x)
include h

/-- A number that the format has keeps its sign and its magnitude. -/
theorem hasMagnitude_ofNumber_of_fits (hfits : t.Fits x) (hle : x ≤ t.largest) :
    (t.meaning (t.ofNumber n)).HasMagnitude negative x := by
  obtain ⟨m, e, rfl, rfl⟩ := h
  rw [← Number.numerator_div_denominator] at hfits hle ⊢
  have hden := Number.denominator_pos e
  have hround := hasMagnitude_round hden hle negative
  have hvalue := t.value?_round_of_fits hden hfits hle negative
  rw [value?, hround.toRat?_eq, Option.some.injEq, Number.withSign_inj] at hvalue
  rwa [hvalue] at hround

/-- Below the normal numbers a magnitude becomes the nearest multiple of the smallest number. -/
theorem exists_hasMagnitude_ofNumber (hlt : x < 2 ^ (t.lowestExponent + t.fractionBits)) :
    ∃ k, IsNearestInteger (x / 2 ^ t.lowestExponent) k ∧
      (t.meaning (t.ofNumber n)).HasMagnitude negative (k * 2 ^ t.lowestExponent) := by
  obtain ⟨m, e, rfl, rfl⟩ := h
  rw [← Number.numerator_div_denominator] at hlt ⊢
  rw [ofNumber]
  have hden := Number.denominator_pos e
  generalize Number.numerator m e = num at *
  generalize Number.denominator e = den at *
  have hle : (num / den : ℚ) ≤ t.largest := by
    have hone : (2 : ℚ) ^ (t.lowestExponent + t.fractionBits) ≤ 1 :=
      zpow_le_one_of_nonpos₀ one_le_two (by cases t <;> decide)
    have hlargest : (1 : ℚ) ≤ t.largest := by
      exact_mod_cast (by cases t <;> decide : 1 ≤ t.largest)
    linarith
  have hround := hasMagnitude_round hden hle negative
  by_cases hnum : num = 0
  · subst hnum
    have hquanta : t.quanta 0 den = 0 := Nat.le_zero.mp (t.quanta_le hden (by simp))
    refine ⟨0, ⟨by simp, fun _ _ _ => rfl⟩, ?_⟩
    simpa [hquanta] using hround
  · have hquantum := quantum_eq_lowestExponent hnum hden hlt
    have hnearest := isNearestInteger_quanta (t := t) num hden
    rw [hquantum] at hround hnearest
    exact ⟨_, hnearest, hround⟩

/-! ### Numbers beyond every float -/

theorem saturate_of_hasMagnitude_le (hle : x ≤ t.largest) : t.saturate n = t.ofNumber n :=
  saturate_of_le h.toRat?_eq (h.abs_withSign.trans_le hle)

/-- A number that is beyond the largest float becomes an infinity of its sign. -/
theorem saturate_of_hasMagnitude_gt (hgt : t.largest < x) :
    t.saturate n = t.pattern negative t.infinity := by
  obtain ⟨m, e, rfl, rfl⟩ := h
  have habs := HasMagnitude.abs_withSign (n := .finite negative m e) ⟨m, e, rfl, rfl⟩
  rw [saturate, if_pos (largest_lt_abs_iff.mp (habs.symm ▸ hgt))]

/-- What a number becomes depends on its sign and its magnitude alone. -/
theorem saturate_congr (h' : n'.HasMagnitude negative x) : t.saturate n = t.saturate n' := by
  rcases le_or_gt x t.largest with hle | hgt
  · rw [saturate_of_hasMagnitude_le h hle, saturate_of_hasMagnitude_le h' hle, ofNumber_congr h h']
  · rw [saturate_of_hasMagnitude_gt h hgt, saturate_of_hasMagnitude_gt h' hgt]

end OfNumber

/-! ### How far the nearest float is -/

/-- Above the smallest normal number, the nearest float is no further than a part of the number that
the precision says. -/
theorem IsNearest.abs_sub_le {num den : ℕ} {w : t.Word} {v : ℚ}
    (h : t.IsNearest (num / den) w v) (hnum : num ≠ 0) (hden : 0 < den)
    (hlow : (2 : ℚ) ^ (t.lowestExponent + t.fractionBits) ≤ num / den)
    (hle : (num / den : ℚ) ≤ t.largest) :
    |v - num / den| ≤ num / den * 2 ^ (-(t.fractionBits : ℤ) - 1) := by
  have hpos : (0 : ℚ) < 2 ^ t.quantum num den := two_zpow_pos _
  have hround := (t.value?_round hden hle false).1
  have hhalf := (isNearestInteger_quanta (t := t) num hden).abs_sub_le_half
  have hbinade : (2 : ℚ) ^ t.quantum num den * 2 ^ (t.fractionBits : ℤ) ≤ num / den := by
    by_cases hq : t.quantum num den = t.lowestExponent
    · rwa [hq, ← zpow_add₀ two_ne_zero]
    · have hle := t.le_div_quantum hden hnum hq
      rw [le_div_iff₀ hpos] at hle
      rw [mul_comm]
      exact_mod_cast hle
  calc |v - num / den|
      ≤ |(t.quanta num den : ℚ) * 2 ^ t.quantum num den - num / den| := h.nearest _ _ hround
    _ = |(t.quanta num den : ℚ) - num / den / 2 ^ t.quantum num den| * 2 ^ t.quantum num den := by
        rw [← abs_of_pos hpos, ← abs_mul, abs_of_pos hpos, sub_mul, div_mul_cancel₀ _ hpos.ne']
    _ ≤ 1 / 2 * 2 ^ t.quantum num den := mul_le_mul_of_nonneg_right hhalf hpos.le
    _ = 2 ^ t.quantum num den * 2 ^ (t.fractionBits : ℤ) * 2 ^ (-(t.fractionBits : ℤ) - 1) := by
        have hsum : (t.fractionBits : ℤ) + (-(t.fractionBits : ℤ) - 1) = -1 := by omega
        rw [mul_assoc, ← zpow_add₀ two_ne_zero, hsum, mul_comm, zpow_neg_one, one_div]
    _ ≤ num / den * 2 ^ (-(t.fractionBits : ℤ) - 1) := by gcongr

end FloatType

end SegY
