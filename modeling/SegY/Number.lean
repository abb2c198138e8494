import SegY.Bytes

/-!
# The exact meaning of a stored number

Integers, binary floats and hexadecimal floats all mean a `Number`: a sign, a significand and a power of
two, or an infinity, or not a number.  Nothing is rounded on the way to a `Number`; what is rounded is
rounded once, on the way from it (`roundDiv`).

`Number.truncate?` is the integer part, and `Number.fixedText` the decimal text with six places.
-/

namespace SegY

/-- The integer nearest to `num / den`; a tie goes to the even neighbour. -/
def roundDiv (num den : Nat) : Nat :=
  let q := num / den
  let r := num % den
  if 2 * r < den ∨ (2 * r = den ∧ q % 2 = 0) then q else q + 1

/-- What a stored number means. -/
inductive Number where
  /-- The number `± significand · 2 ^ exponent`; a zero keeps its sign. -/
  | finite (negative : Bool) (significand : Nat) (exponent : Int)
  /-- An infinity. -/
  | infinite (negative : Bool)
  /-- Not a number; the payload is its 52-bit fraction as a double. -/
  | nan (negative : Bool) (payload : Nat)
  deriving DecidableEq, Repr

namespace Number

/-- An integer as a number. -/
def ofInt (n : Int) : Number := .finite (decide (n < 0)) n.natAbs 0

/-- The numerator of `significand · 2 ^ exponent`. -/
def numerator (significand : Nat) (exponent : Int) : Nat := significand <<< exponent.toNat

/-- The denominator of `significand · 2 ^ exponent`. -/
def denominator (exponent : Int) : Nat := 1 <<< (-exponent).toNat

/-- A magnitude with its sign. -/
def signed (negative : Bool) (magnitude : Nat) : Int :=
  if negative then -(magnitude : Int) else magnitude

/-- The integer part, toward zero; infinities and NaN have none. -/
def truncate? : Number → Option Int
  | finite negative m e => some (signed negative (numerator m e / denominator e))
  | infinite _ => none
  | nan _ _ => none

/-- A sign in front of a text. -/
def signText (negative : Bool) (text : String) : String :=
  if negative then "-" ++ text else text

/-- Six decimal digits, with leading zeros. -/
def sixDigits (n : Nat) : String :=
  let digits := toString n
  String.ofList (List.replicate (6 - digits.length) '0') ++ digits

/-- The decimal text with six places, correctly rounded, and with all integral digits. -/
def fixedText : Number → String
  | finite negative m e =>
    let millionths := roundDiv (numerator m e * 1000000) (denominator e)
    signText negative
      (toString (millionths / 1000000) ++ "." ++ sixDigits (millionths % 1000000))
  | infinite negative => signText negative "inf"
  | nan negative _ => signText negative "nan"

/-- Whether the number is above zero. -/
def isPositive : Number → Bool
  | finite negative m _ => !negative && m != 0
  | infinite negative => !negative
  | nan _ _ => false

@[simp] theorem truncate?_ofInt (n : Int) : (ofInt n).truncate? = some n := by
  have h : numerator n.natAbs 0 / denominator 0 = n.natAbs := by
    simp only [numerator, denominator, Int.neg_zero, Int.toNat_zero, Nat.shiftLeft_zero, Nat.div_one]
  simp only [ofInt, truncate?, h, signed, decide_eq_true_eq, Option.some.injEq]
  split <;> omega

end Number

end SegY
