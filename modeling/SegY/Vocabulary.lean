/-!
# Coded header fields

Many header fields hold a code from a small vocabulary.  Every vocabulary is a closed range of integers
around 0, where 0 means that nothing is said.  Files are only partly trusted, so a code outside the range
is read as `Code.invalid`, and `Code.invalid` is written back as 0.

`Code.ofInt_toInt` says what is left of a value that is written and read: a known code is kept, and the
invalid one says nothing.
-/

namespace SegY

/-- The meaning of a coded field. -/
inductive Vocabulary where
  | traceSorting
  | sweepType
  | taperType
  | correlated
  | gainRecovered
  | amplitudeRecovery
  | measurementSystem
  | impulsePolarity
  | vibratoryPolarity
  | timeBasis
  | traceId
  | dataUse
  | coordinateUnits
  | gainType
  | overTravel
  | valueUnit
  | sourceType
  | sourceUnit
  deriving DecidableEq, Repr

namespace Vocabulary

/-- The lowest code; vocabularies with a code for "other" have it at -1. -/
def lowest : Vocabulary → Int
  | traceSorting | traceId | valueUnit | sourceUnit => -1
  | _ => 0

/-- The highest code. -/
def highest : Vocabulary → Int
  | traceSorting => 9
  | sweepType => 4
  | taperType => 3
  | correlated => 2
  | gainRecovered => 2
  | amplitudeRecovery => 4
  | measurementSystem => 2
  | impulsePolarity => 2
  | vibratoryPolarity => 8
  | timeBasis => 5
  | traceId => 41
  | dataUse => 2
  | coordinateUnits => 4
  | gainType => 3
  | overTravel => 2
  | valueUnit => 9
  | sourceType => 9
  | sourceUnit => 7

/-- Whether the vocabulary has the code. -/
def Has (v : Vocabulary) (n : Int) : Prop := v.lowest ≤ n ∧ n ≤ v.highest

instance (v : Vocabulary) (n : Int) : Decidable (v.Has n) := inferInstanceAs (Decidable (_ ∧ _))

theorem has_zero (v : Vocabulary) : v.Has 0 := by
  cases v <;> decide

theorem bounds (v : Vocabulary) : -1 ≤ v.lowest ∧ v.highest ≤ 41 := by
  cases v <;> decide

end Vocabulary

/-- The value of a coded field. -/
inductive Code (v : Vocabulary) where
  /-- A code of the vocabulary. -/
  | known (n : Int) (h : v.Has n)
  /-- Any code that the vocabulary does not have. -/
  | invalid
  deriving DecidableEq, Repr

namespace Code

variable {v : Vocabulary}

/-- The value of a stored code. -/
def ofInt (v : Vocabulary) (n : Int) : Code v := if h : v.Has n then known n h else invalid

/-- The code to store. -/
def toInt : Code v → Int
  | known n _ => n
  | invalid => 0

/-- The code 0, which says nothing. -/
def unspecified (v : Vocabulary) : Code v := known 0 v.has_zero

instance : Inhabited (Code v) := ⟨unspecified v⟩

/-- What is left of a value once it was written: an invalid code says nothing. -/
def settled : Code v → Code v
  | known n h => known n h
  | invalid => unspecified v

/-- Codes fit into 16 bits with a sign. -/
theorem toInt_bounds (c : Code v) : -32768 ≤ c.toInt ∧ c.toInt < 32768 := by
  have h : v.Has c.toInt := by
    cases c with
    | known n h => exact h
    | invalid => exact v.has_zero
  have hv := v.bounds
  exact ⟨by have := h.1; omega, by have := h.2; omega⟩

theorem has_toInt (c : Code v) : v.Has c.toInt := by
  cases c with
  | known n h => exact h
  | invalid => exact v.has_zero

@[simp] theorem ofInt_toInt (c : Code v) : ofInt v c.toInt = c.settled := by
  cases c with
  | known n h => simp [ofInt, toInt, settled, h]
  | invalid => simp [ofInt, toInt, settled, unspecified, v.has_zero]

theorem toInt_ofInt {n : Int} (h : v.Has n) : (ofInt v n).toInt = n := by
  simp [ofInt, toInt, h]

end Code

end SegY
