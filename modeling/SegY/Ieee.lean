import SegY.Number

/-!
# Binary floats

The two binary interchange formats of 32 and 64 bits, as bit patterns.  `FloatType.meaning` is the exact
value of a pattern.  `FloatType.round` is the pattern nearest to a non-negative rational number, given a
sign; a tie goes to the even pattern, and what is too large becomes an infinity.

The patterns of one sign are numbered in the order of the numbers they mean, so rounding computes the
number of the pattern: each full binade below contributes `2 ^ fractionBits` patterns, and the rest is a
count of quanta.  A significand that rounds up to the next binade carries into the exponent by itself.

`FloatType.saturate` differs from rounding for numbers above the largest finite one: they all become
infinite, also those less than half a quantum above it.
-/

namespace SegY

/-- A binary interchange format. -/
inductive FloatType where
  /-- Single precision. -/
  | float32
  /-- Double precision. -/
  | float64
  deriving DecidableEq, Repr

namespace FloatType

/-- The width of a pattern in bits. -/
def bits : FloatType → Nat
  | float32 => 32
  | float64 => 64

/-- The width of the fraction. -/
def fractionBits : FloatType → Nat
  | float32 => 23
  | float64 => 52

/-- The width of the exponent. -/
def exponentBits : FloatType → Nat
  | float32 => 8
  | float64 => 11

/-- A bit pattern of the format. -/
abbrev Word (t : FloatType) := BitVec t.bits

/-- The exponent of the smallest positive number, `2 ^ lowestExponent`. -/
def lowestExponent (t : FloatType) : Int :=
  2 - (1 <<< (t.exponentBits - 1) : Nat) - t.fractionBits

/-- The pattern of positive infinity. -/
def infinity (t : FloatType) : Nat := ((1 <<< t.exponentBits) - 1) <<< t.fractionBits

/-- The largest finite number, an integer. -/
def largest (t : FloatType) : Nat :=
  ((1 <<< (t.fractionBits + 1)) - 1) <<< ((1 <<< (t.exponentBits - 1)) - 1 - t.fractionBits)

/-- A pattern of a magnitude, with its sign. -/
def pattern (t : FloatType) (negative : Bool) (magnitude : Nat) : t.Word :=
  BitVec.ofNat t.bits (magnitude + if negative then 1 <<< (t.bits - 1) else 0)

/-- The exact meaning of a pattern. -/
def meaning (t : FloatType) (w : t.Word) : Number :=
  let negative := w.toNat >>> (t.bits - 1) == 1
  let exponent := (w.toNat >>> t.fractionBits) % (1 <<< t.exponentBits)
  let fraction := w.toNat % (1 <<< t.fractionBits)
  if exponent = (1 <<< t.exponentBits) - 1 then
    if fraction = 0 then .infinite negative
    else .nan negative (fraction <<< (52 - t.fractionBits))
  else if exponent = 0 then .finite negative fraction t.lowestExponent
  else .finite negative ((1 <<< t.fractionBits) + fraction) (t.lowestExponent + (exponent - 1))

/-- The exponent of the binade that holds the positive rational `num / den`. -/
def floorLog2 (num den : Nat) : Int :=
  let d : Int := (num.log2 : Int) - den.log2
  if den <<< d.toNat ≤ num <<< (-d).toNat then d else d - 1

/-- The exponent of the distance between neighbouring numbers around the rational `num / den`. -/
def quantum (t : FloatType) (num den : Nat) : Int :=
  max t.lowestExponent (floorLog2 num den - t.fractionBits)

/-- The number of the non-negative pattern nearest to the rational `num / den`. -/
def magnitude (t : FloatType) (num den : Nat) : Nat :=
  if num = 0 then 0
  else
    let q := t.quantum num den
    let quanta := roundDiv (num <<< (-q).toNat) (den <<< q.toNat)
    min t.infinity (((q - t.lowestExponent).toNat <<< t.fractionBits) + quanta)

/-- The pattern nearest to `± num / den`. -/
def round (t : FloatType) (negative : Bool) (num den : Nat) : t.Word :=
  t.pattern negative (t.magnitude num den)

/-- The pattern of a NaN: the payload loses what the fraction cannot hold, and is made quiet. -/
def quietNan (t : FloatType) (negative : Bool) (payload : Nat) : t.Word :=
  t.pattern negative
    (t.infinity + ((payload >>> (52 - t.fractionBits)) ||| (1 <<< (t.fractionBits - 1))))

/-- The pattern nearest to a number. -/
def ofNumber (t : FloatType) : Number → t.Word
  | .finite negative m e => t.round negative (Number.numerator m e) (Number.denominator e)
  | .infinite negative => t.pattern negative t.infinity
  | .nan negative payload => t.quietNan negative payload

/-- The pattern nearest to a number, or an infinity if the number is beyond every finite one. -/
def saturate (t : FloatType) : Number → t.Word
  | .finite negative m e =>
    if t.largest * Number.denominator e < Number.numerator m e then t.pattern negative t.infinity
    else t.round negative (Number.numerator m e) (Number.denominator e)
  | n => t.ofNumber n

/-- The quotient of a number by a positive finite one, rounded. -/
def divide (t : FloatType) : Number → Number → t.Word
  | .finite negative m e, .finite _ m' e' =>
    t.round negative (Number.numerator m e * Number.denominator e')
      (Number.denominator e * Number.numerator m' e')
  | x, _ => t.ofNumber x

end FloatType

end SegY
