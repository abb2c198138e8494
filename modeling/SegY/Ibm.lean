import SegY.Ieee

/-!
# Hexadecimal floats

The base-16 floats of mainframe tapes: a sign bit, a 7-bit exponent of sixteen in excess 64, and a 24-bit
fraction.  They are big-endian in every file.  A fraction need not be normalised, and every pattern is
finite.
-/

namespace SegY.Ibm

/-- The exact meaning of four bytes: `± 0.fraction · 16 ^ (exponent - 64)`. -/
def meaning (b : Bytes) : Number :=
  let word := ByteOrder.big.load b
  .finite ((word >>> 31) % 2 == 1) (word % (1 <<< 24)) (4 * (((word >>> 24) % 128 : Nat) - 64 : Int) - 24)

/-- The single precision float of four bytes; what is beyond its range becomes infinite. -/
def toFloat (b : Bytes) : FloatType.float32.Word := FloatType.float32.saturate (meaning b)

end SegY.Ibm
