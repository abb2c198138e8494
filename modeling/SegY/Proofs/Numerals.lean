import Mathlib.Data.Nat.Digits.Defs
import Mathlib.Data.Set.List
import SegY.Proofs.CleanFailures
import SegY.Proofs.LabelRoundTrip

/-!
# Decimal numerals

What `integer?` reads, as a grammar: white space, a sign or none, and digits (`Numeral`).  A numeral
has a text and a value, the digits counted by their places.

A text can begin with a numeral and go on: `leading?` takes as much as belongs to the numeral, which
is at least a digit and as many of them as there are, and `integer?` wants nothing to be left of the
text.  Neither has a bound on numbers.  A reader in machine words has two, that of the word in which
it collects the digits, where it stops, and that of the word in which the number is used
(`checkedInt`); none of this is seen from outside.

* `leading?_eq_some_iff`: the numeral at the beginning of a text.
* `integer?_eq_some_iff`: the texts that are numerals.
* `positive?_eq_checkedInt`: positive numbers, read in machine words.
-/

namespace SegY.CommandLine
open TapeLabel (isDigit ofDigits)

/-! ### Numerals -/

/-- White space: the blank, and from the tab to the carriage return. -/
def whiteSpace : Bytes := [0x20, 0x09, 0x0A, 0x0B, 0x0C, 0x0D]

/-- The sign of a numeral. -/
inductive Sign where
  | absent
  | plus
  | minus
  deriving DecidableEq, Repr

namespace Sign

/-- How a sign is written. -/
def text : Sign → Bytes
  | absent => []
  | plus => [0x2B]
  | minus => [0x2D]

/-- Whether a sign makes numbers negative. -/
def isNegative : Sign → Bool
  | absent | plus => false
  | minus => true

end Sign

/-- A decimal numeral, with white space before it. -/
structure Numeral where
  space : Bytes
  sign : Sign
  digits : List (Fin 10)
  isSpace : ∀ c ∈ space, c ∈ whiteSpace
  nonempty : digits ≠ []

namespace Numeral

/-- How a digit is written. -/
def digit (d : Fin 10) : UInt8 := UInt8.ofNat (0x30 + d)

/-- How a numeral is written. -/
def text (m : Numeral) : Bytes := m.space ++ (m.sign.text ++ m.digits.map digit)

/-- The number that a numeral stands for. -/
def value (m : Numeral) : Int :=
  Number.signed m.sign.isNegative (Nat.ofDigits 10 (m.digits.reverse.map Fin.val))

theorem toNat_digit (d : Fin 10) : (digit d).toNat = 0x30 + d := by
  rw [digit, UInt8.toNat_ofNat']
  omega

theorem isDigit_iff {c : UInt8} : isDigit c = true ↔ ∃ d, digit d = c := by
  have hlow : (0x30 : UInt8).toNat = 48 := rfl
  have hhigh : (0x39 : UInt8).toNat = 57 := rfl
  simp only [isDigit, Bool.and_eq_true, decide_eq_true_eq, UInt8.le_iff_toNat_le]
  constructor
  · intro h
    refine ⟨⟨c.toNat - 48, by omega⟩, UInt8.toNat_inj.mp ?_⟩
    rw [toNat_digit]
    exact Nat.add_sub_cancel' (by omega)
  · rintro ⟨d, rfl⟩
    rw [toNat_digit]
    omega

theorem all_isDigit_iff {b : Bytes} : b.all isDigit = true ↔ ∃ digits : List (Fin 10), digits.map digit = b := by
  have hrange := Set.ext_iff.mp (Set.range_list_map digit) b
  simp only [Set.mem_range, Set.mem_ofPred_eq] at hrange
  simp only [hrange, List.all_eq_true, isDigit_iff]

/-- The digits count by their places. -/
theorem ofDigits_map (digits : List (Fin 10)) :
    ofDigits (digits.map digit) = Nat.ofDigits 10 (digits.reverse.map Fin.val) := by
  induction digits using List.reverseRecOn with
  | nil => rfl
  | append_singleton digits d ih =>
    rw [List.map_append, List.map_singleton, TapeLabel.ofDigits_concat, ih, toNat_digit,
      List.reverse_append, List.reverse_singleton, List.singleton_append, List.map_cons,
      Nat.ofDigits_cons]
    omega

end Numeral

/-! ### Reading numerals -/

/-- Whether a byte is white space. -/
def isSpace (c : UInt8) : Bool := c == 0x20 || (0x09 ≤ c && c ≤ 0x0D)

/-- Whether a text begins with a minus, and the text without its sign. -/
def splitSign : Bytes → Bool × Bytes
  | 0x2D :: digits => (true, digits)
  | 0x2B :: digits => (false, digits)
  | digits => (false, digits)

/-- The number at the beginning of a text, and what follows it. -/
def leading? (b : Bytes) : Option (Int × Bytes) :=
  let (negative, text) := splitSign (b.dropWhile isSpace)
  let digits := text.takeWhile isDigit
  if digits.isEmpty then none
  else some (Number.signed negative (ofDigits digits), text.dropWhile isDigit)

theorem isSpace_iff {c : UInt8} : isSpace c = true ↔ c ∈ whiteSpace := by
  simp only [isSpace, whiteSpace, UInt8.le_iff_toNat_le, ← UInt8.toNat_inj, UInt8.reduceToNat,
    Bool.or_eq_true, Bool.and_eq_true, beq_iff_eq, decide_eq_true_eq, List.mem_cons,
    List.not_mem_nil, or_false]
  omega

theorem dropWhile_text (m : Numeral) (rest : Bytes) :
    (m.text ++ rest).dropWhile isSpace = m.sign.text ++ (m.digits.map Numeral.digit ++ rest) := by
  have hspace : ∀ c ∈ m.space, isSpace c = true := fun c hc => isSpace_iff.mpr (m.isSpace c hc)
  have hdigit (d : Fin 10) : isSpace (Numeral.digit d) = false := by
    revert d
    decide
  obtain ⟨d, digits, hd⟩ := List.exists_cons_of_ne_nil m.nonempty
  rw [Numeral.text, List.append_assoc, List.append_assoc, List.dropWhile_append_of_pos hspace, hd]
  cases m.sign with
  | absent =>
    refine List.dropWhile_cons_of_neg ?_
    rw [hdigit]
    exact Bool.false_ne_true
  | plus | minus => rfl

theorem splitSign_text (m : Numeral) (rest : Bytes) :
    splitSign (m.sign.text ++ (m.digits.map Numeral.digit ++ rest)) =
      (m.sign.isNegative, m.digits.map Numeral.digit ++ rest) := by
  have hdigit (d : Fin 10) : Numeral.digit d ≠ 0x2D ∧ Numeral.digit d ≠ 0x2B := by
    revert d
    decide
  obtain ⟨d, digits, hd⟩ := List.exists_cons_of_ne_nil m.nonempty
  cases m.sign with
  | absent =>
    rw [hd]
    show splitSign (Numeral.digit d :: _) = _
    rw [splitSign]
    · rfl
    · exact fun _ h => (hdigit d).1 (List.cons.inj h).1
    · exact fun _ h => (hdigit d).2 (List.cons.inj h).1
  | plus | minus => rfl

theorem exists_sign (b : Bytes) :
    ∃ s : Sign, b = s.text ++ (splitSign b).2 ∧ s.isNegative = (splitSign b).1 := by
  rw [splitSign.eq_def]
  split
  · exact ⟨.minus, rfl, rfl⟩
  · exact ⟨.plus, rfl, rfl⟩
  · exact ⟨.absent, rfl, rfl⟩

theorem leading?_text (m : Numeral) {rest : Bytes} (hrest : ∀ c ∈ rest.head?, isDigit c = false) :
    leading? (m.text ++ rest) = some (m.value, rest) := by
  have hdigits : ∀ c ∈ m.digits.map Numeral.digit, isDigit c = true :=
    List.all_eq_true.mp (Numeral.all_isDigit_iff.mpr ⟨m.digits, rfl⟩)
  have hends : rest.takeWhile isDigit = [] ∧ rest.dropWhile isDigit = rest := by
    cases rest with
    | nil => exact ⟨rfl, rfl⟩
    | cons c rest =>
      have hc : ¬ isDigit c = true := by simp [hrest c rfl]
      exact ⟨List.takeWhile_cons_of_neg hc, List.dropWhile_cons_of_neg hc⟩
  simp only [leading?, dropWhile_text, splitSign_text, List.takeWhile_append_of_pos hdigits,
    List.dropWhile_append_of_pos hdigits, hends, List.append_nil, List.isEmpty_iff,
    List.map_eq_nil_iff, m.nonempty, if_false, Numeral.ofDigits_map, Numeral.value]

/-- **The numeral at the beginning of a text** ends where no digit follows. -/
theorem leading?_eq_some_iff {b : Bytes} {n : Int} {rest : Bytes} :
    leading? b = some (n, rest) ↔
      ∃ m : Numeral, b = m.text ++ rest ∧ m.value = n ∧ ∀ c ∈ rest.head?, isDigit c = false := by
  constructor
  · intro h
    obtain ⟨sign, hsign, hnegative⟩ := exists_sign (b.dropWhile isSpace)
    simp only [leading?] at h
    split at h
    · cases h
    · next hne =>
      cases h
      obtain ⟨digits, hdigits⟩ := Numeral.all_isDigit_iff.mp
        (List.all_takeWhile (p := isDigit) (l := (splitSign (b.dropWhile isSpace)).2))
      have hspace (c : UInt8) (hc : c ∈ b.takeWhile isSpace) : c ∈ whiteSpace :=
        isSpace_iff.mp (List.mem_takeWhile_imp hc)
      refine ⟨⟨b.takeWhile isSpace, sign, digits, hspace, ?_⟩, ?_, ?_, ?_⟩
      · rintro rfl
        rw [← hdigits] at hne
        exact hne rfl
      · rw [Numeral.text, hdigits, List.append_assoc, List.append_assoc,
          List.takeWhile_append_dropWhile, ← hsign, List.takeWhile_append_dropWhile]
      · rw [Numeral.value, hnegative, ← Numeral.ofDigits_map, hdigits]
      · intro c hc
        have hnot := List.head?_dropWhile_not isDigit (splitSign (b.dropWhile isSpace)).2
        rw [hc] at hnot
        exact hnot
  · rintro ⟨m, rfl, rfl, hrest⟩
    exact leading?_text m hrest

/-- A text is read as a number if nothing is left of it. -/
theorem integer?_eq (b : Bytes) : integer? b =
    (leading? b).bind fun found => if found.2 = [] then some found.1 else none := by
  have hinteger : integer? b =
      let (negative, digits) := splitSign (b.dropWhile isSpace)
      if digits.isEmpty || !digits.all isDigit then none
      else some (Number.signed negative (ofDigits digits)) := rfl
  rw [hinteger, leading?]
  generalize splitSign (b.dropWhile isSpace) = signed
  obtain ⟨negative, digits⟩ := signed
  dsimp only
  cases hall : digits.all isDigit with
  | true =>
    rw [List.takeWhile_eq_self_iff.mpr (List.all_eq_true.mp hall),
      List.dropWhile_eq_nil_iff.mpr (List.all_eq_true.mp hall)]
    cases digits.isEmpty <;> rfl
  | false =>
    have hrest : digits.dropWhile isDigit ≠ [] := fun h => by
      rw [List.all_eq_true.mpr (List.dropWhile_eq_nil_iff.mp h)] at hall
      cases hall
    rw [Bool.not_false, Bool.or_true, if_pos rfl]
    split <;> simp [hrest]

/-- **The texts that are numerals.** -/
theorem integer?_eq_some_iff {b : Bytes} {n : Int} :
    integer? b = some n ↔ ∃ m : Numeral, m.text = b ∧ m.value = n := by
  rw [integer?_eq, Option.bind_eq_some_iff]
  constructor
  · rintro ⟨⟨n, rest⟩, hleading, hrest⟩
    obtain ⟨rfl, hn⟩ := Option.ite_none_right_eq_some.mp hrest
    cases hn
    obtain ⟨m, hb, hvalue, -⟩ := leading?_eq_some_iff.mp hleading
    exact ⟨m, by rw [hb, List.append_nil], hvalue⟩
  · rintro ⟨m, rfl, rfl⟩
    refine ⟨(m.value, []), leading?_eq_some_iff.mpr ⟨m, ?_, rfl, fun c hc => ?_⟩, if_pos rfl⟩
    · rw [List.append_nil]
    · cases hc

/-! ### Reading in machine words -/

/-- Why a text is not read as a number. -/
inductive NumeralFault where
  | notNumeral
  | outOfRange
  deriving DecidableEq, Repr

/-- The number that a text spells, collected in 64 bits and used in 32.  A number that 64 bits do
not hold is collected as the limit that it is beyond. -/
def checkedInt (b : Bytes) : Except NumeralFault Int32 :=
  match leading? b with
  | none => .error .notNumeral
  | some (n, rest) =>
    let collected := Int64.ofIntClamp n
    if rest ≠ [] then .error .notNumeral
    else if collected.toInt ≠ n ∨ collected < 0 ∨ Int32.maxValue.toInt64 < collected then
      .error .outOfRange
    else .ok collected.toInt32

/-- **The limit of a word is never taken for a number.** -/
theorem checkedInt_eq (b : Bytes) : checkedInt b =
    match integer? b with
    | none => .error .notNumeral
    | some n => if 0 ≤ n ∧ n ≤ 2147483647 then .ok (Int32.ofInt n) else .error .outOfRange := by
  have hmax : Int32.maxValue.toInt64.toInt = 2147483647 := rfl
  have hlow : Int64.minValue.toInt = -9223372036854775808 := rfl
  have hhigh : Int64.maxValue.toInt = 9223372036854775807 := rfl
  rw [checkedInt, integer?_eq]
  cases leading? b with
  | none => rfl
  | some found =>
    obtain ⟨n, rest⟩ := found
    simp only [Int64.lt_iff_toInt_lt, hmax, Int64.toInt_zero, Option.bind_some]
    by_cases hrest : rest = []
    · rw [if_neg (not_not.mpr hrest), if_pos hrest]
      dsimp only
      -- 64 bits hold all numbers of 32 bits, so a limit that stands for another number is refused
      by_cases hin : 0 ≤ n ∧ n ≤ 2147483647
      · have hkept : (Int64.ofIntClamp n).toInt = n := Int64.toInt_ofIntClamp (by omega) (by omega)
        have hword : (Int64.ofIntClamp n).toInt32 = Int32.ofInt n := by
          rw [← Int32.toInt_inj, Int64.toInt_toInt32, hkept, Int32.toInt_ofInt]
        rw [if_neg (by omega), if_pos hin, hword]
      · rw [if_pos (by omega), if_neg hin]
    · rw [if_pos hrest, if_neg hrest]

/-- **Positive numbers, read in machine words.** -/
theorem positive?_eq_checkedInt (b : Bytes) :
    positive? b = (checkedInt b).toOption.filter (· ≠ 0) := by
  have hmax : Int32.maxValue.toInt = 2147483647 := rfl
  rw [positive?, checkedInt_eq, hmax]
  cases integer? b with
  | none => rfl
  | some n =>
    dsimp only
    split
    · next hpos =>
      have hne : Int32.ofInt n ≠ 0 := fun hzero => by
        have hn : (Int32.ofInt n).toInt = n := Int32.toInt_ofInt_of_le (by omega) (by omega)
        rw [hzero, Int32.toInt_zero] at hn
        omega
      rw [if_pos (by omega), Except.toOption, Option.filter_some_pos (by simpa using hne)]
    · next hpos =>
      split
      · have hzero : n = 0 := by omega
        subst hzero
        rfl
      · rfl

end SegY.CommandLine
