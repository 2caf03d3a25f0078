/-!
# Binary64 numbers

The double-precision numbers of IEEE 754, given by sign, mantissa and binary exponent, and the
rounding of a decimal number to the nearest of them with ties going to the even mantissa.  All
arithmetic is exact arithmetic on natural numbers.
-/

namespace FormSchema

/-! ## Section 1: The numbers -/

/-- The decimal number `digits * 10 ^ exponent`. -/
structure Decimal where
  digits : Nat
  exponent : Int
  deriving DecidableEq

/-- A double-precision number: `mantissa * 2 ^ exponent` with a sign, an infinity, or not a
number. -/
inductive Binary64
  | finite (negative : Bool) (mantissa : Nat) (exponent : Int)
  | infinite (negative : Bool)
  | nan
  deriving DecidableEq, Inhabited

namespace Binary64

/-- The mantissa of a normal number has 53 bits. -/
def precision : Nat := 53

/-- The least mantissa of 53 bits. -/
def leastMantissa : Nat := 0x10000000000000

/-- The exponent of the least positive number. -/
def minExponent : Int := -1074

/-- The exponent of the greatest finite numbers. -/
def maxExponent : Int := 971

def zero (negative : Bool) : Binary64 := .finite negative 0 minExponent

/-! ## Section 2: Rounding to nearest -/

/-- The quotient rounded to the nearest natural number, a half going to the even neighbour. -/
def roundHalfEven (num den : Nat) : Nat :=
  let q := num / den
  let r := num % den
  if 2 * r < den || (2 * r == den && q % 2 == 0) then q else q + 1

/-- A ratio multiplied by a power of a base, as numerator and denominator. -/
def scale (base : Nat) (power : Int) (num den : Nat) : Nat × Nat :=
  (num * Nat.pow base power.toNat, den * Nat.pow base (-power).toNat)

/-- The exponent of the mantissa's last bit for a positive ratio: the one that leaves exactly 53
bits before the binary point, but none below the least exponent. -/
def lastBitExponent (num den : Nat) : Int :=
  -- the quotient of two powers of two may be twice the ratio, so the guess is at most one too high
  let guess : Int := (Nat.log2 num : Int) - Nat.log2 den - (precision - 1 : Nat)
  let (n, d) := scale 2 (-guess) num den
  max (if n < d * leastMantissa then guess - 1 else guess) minExponent

/-- The double nearest to a ratio. -/
def ofRatio (negative : Bool) (num den : Nat) : Binary64 :=
  if num = 0 then zero negative
  else
    let e := lastBitExponent num den
    let (n, d) := scale 2 (-e) num den
    let m := roundHalfEven n d
    -- rounding up may carry into a 54th bit, and then every lower bit is zero
    let (m, e) := if m = 2 * leastMantissa then (leastMantissa, e + 1) else (m, e)
    if maxExponent < e then .infinite negative else .finite negative m e

/-- The number of decimal digits of a natural number. -/
def digitCount (n : Nat) : Nat := (Nat.toDigits 10 n).length

/-- The double nearest to a decimal number.  A number of `10 ^ 310` or more is beyond every finite
double and one below `10 ^ -330` is nearer to zero than to any other, so no larger power of ten is
ever built. -/
def ofDecimal (negative : Bool) (d : Decimal) : Binary64 :=
  if d.digits = 0 then zero negative
  else
    -- far outside of the range the power of ten is never computed
    let magnitude : Int := digitCount d.digits + d.exponent
    if 310 < magnitude then .infinite negative
    else if magnitude < -330 then zero negative
    else
      let (n, den) := scale 10 d.exponent d.digits 1
      ofRatio negative n den

/-! ## Section 3: Integers among the doubles -/

/-- Whether a double is a number and not an infinite one. -/
def isFinite : Binary64 → Bool
  | .finite _ _ _ => true
  | _ => false

/-- The integer that a double equals, if it equals one. -/
def toInt? : Binary64 → Option Int
  | .finite negative m e =>
    let (n, d) := scale 2 e m 1
    if n % d = 0 then some (if negative then -(n / d : Nat) else (n / d : Nat)) else none
  | .infinite _ => none
  | .nan => none

/-- Numerical equality: a zero equals the other zero, and not-a-number equals nothing. -/
def sameNumber : Binary64 → Binary64 → Bool
  | .finite s m e, .finite s' m' e' => (m == m' && e == e' && (s == s' || m == 0))
  | .infinite s, .infinite s' => s == s'
  | _, _ => false

end Binary64

end FormSchema
