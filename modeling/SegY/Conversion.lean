import SegY.Error

/-!
# Conversion between sample types

To an integer type a number is truncated toward zero, and refused if the type does not have what is left;
infinities and NaN are always refused.  To a float type every number converts: integers and floats are
rounded once, and a double beyond the largest single becomes infinite.  A value of a float type that is
already of the target type keeps its bits.
-/

namespace SegY

/-- A float as a value of another float type. -/
def FloatType.convert : (target source : FloatType) → source.Word → target.Word
  | .float32, .float32, w => w
  | .float64, .float64, w => w
  | .float64, .float32, w => FloatType.float64.ofNumber (FloatType.float32.meaning w)
  | .float32, .float64, w => FloatType.float32.saturate (FloatType.float64.meaning w)

namespace SampleType

/-- A value as a float. -/
def toFloat (target : FloatType) : (source : SampleType) → source.Word → target.Word
  | floating t, w => target.convert t w
  | integer t, w => target.ofNumber (.ofInt (t.toInt w))

/-- A value as an integer, truncated toward zero, if the integer type has it. -/
def toInteger? (target : IntegerType) (source : SampleType) (w : source.Word) : Option target.Word :=
  (source.number w).truncate?.bind target.ofInt?

/-- A value as a value of another type. -/
def convert (target source : SampleType) (w : source.Word) : Except ConversionError target.Word :=
  match target with
  | floating t => .ok (source.toFloat t w)
  | integer t =>
    match source.toInteger? t w with
    | some v => .ok v
    | none => .error (.unrepresentable source (source.number w) (integer t))

end SampleType

end SegY
