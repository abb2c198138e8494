import SegY.Conversion

/-!
# Coordinate scaling

Coordinates are stored as integers, and the coordinate scalar of a trace header says how to get back from
the stored integer: a positive scalar multiplies, a negative one divides, and 0 leaves it.  A
`CoordinateScalar` is made from the multiplier by which a real coordinate is divided when it is stored.
Above 1 the scalar is the multiplier, below 1 it is the negated reciprocal, both truncated toward zero.

Coordinates are scaled in the arithmetic of their own type: integers divide toward zero, floats round.
-/

namespace SegY

/-- How coordinates of a type are scaled when they are stored. -/
structure CoordinateScalar (t : SampleType) where
  /-- What a coordinate is divided by. -/
  multiplier : t.Word
  /-- The scalar to write. -/
  scalar : Int16

namespace Number

/-- How a positive number compares to 1. -/
def compareOne : Number → Ordering
  | finite _ m e => compare (numerator m e) (denominator e)
  | infinite _ => .gt
  | nan _ _ => .gt

end Number

namespace CoordinateScalar

/-- A value as a 16-bit integer. -/
def toInt16 (t : SampleType) (w : t.Word) : Except ConversionError Int16 :=
  (SampleType.convert .int16 t w).map Int16.ofBitVec

/-- The scaling by a multiplier, which has to be positive and to give a 16-bit scalar. -/
def ofMultiplier (t : SampleType) (m : t.Word) : Except ConversionError (CoordinateScalar t) :=
  let n := t.number m
  if n.isPositive then
    match n.compareOne with
    | .eq => .ok ⟨m, 0⟩
    | .gt => (toInt16 t m).map fun s => ⟨m, s⟩
    | .lt => (toInt16 .float64 (FloatType.float64.divide (.ofInt 1) n)).map fun s => ⟨m, -s⟩
  else .error (.multiplier t n)

variable {t : SampleType}

/-- The quotient of two values in the arithmetic of their type. -/
def quotient : (t : SampleType) → t.Word → t.Word → t.Word
  | .integer t, x, m => BitVec.ofInt t.bits ((t.toInt x).tdiv (t.toInt m))
  | .floating t, x, m => t.divide (t.meaning x) (t.meaning m)

/-- A coordinate divided by the multiplier. -/
def scale (c : CoordinateScalar t) (x : t.Word) : t.Word := quotient t x c.multiplier

/-- A coordinate as it is stored. -/
def scaleToInt32 (c : CoordinateScalar t) (x : t.Word) : Except ConversionError Int32 :=
  (SampleType.convert .int32 t (c.scale x)).map Int32.ofBitVec

end CoordinateScalar

end SegY
