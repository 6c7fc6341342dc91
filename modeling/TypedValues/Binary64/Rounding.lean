import TypedValues.Binary64.Basic

/-!
# Rounding to a double

Every conversion into a double rounds an exact ratio of whole numbers once, to the nearest
double, a tie going to the even one. How the ratio is written makes no difference
(`Magnitude.ofRatio_mul_right`), and a ratio that is a double already is left as it is
(`Magnitude.ofRatio_ratio`).
-/

namespace TypedValues

/-- The whole number nearest to `num / den`; a tie goes to the even one. -/
def roundDiv (num den : Nat) : Nat :=
  let floor := num / den
  let twice := 2 * (num % den)
  if twice < den then floor
  else if den < twice then floor + 1
  else floor + floor % 2

/-- The ratio `num / den` multiplied by two to the power of `-exponent`. -/
def scaleDown (num den : Nat) (exponent : Int) : Nat × Nat :=
  if 0 ≤ exponent then (num, den <<< exponent.toNat) else (num <<< (-exponent).toNat, den)

/-- The exponent of the greatest power of two that is at most `num / den`, both positive. -/
def floorLog2 (num den : Nat) : Int :=
  let guess : Int := num.log2 - den.log2
  let (n, d) := scaleDown num den guess
  if d ≤ n then guess else guess - 1

namespace Magnitude

/-- The double nearest to `num / den`. The significand has 53 bits unless that takes an exponent
below the least one; a significand that rounds up to `2 ^ 53` is the next power of two, which is
what its rank says without further case. -/
def ofRatio (num den : Nat) : Magnitude :=
  if num = 0 then zero
  else
    -- a subnormal double keeps the least exponent and has fewer bits
    let exponent := max (floorLog2 num den - 52) (-1074)
    let (n, d) := scaleDown num den exponent
    ofRank ((exponent + 1074).toNat * binade + roundDiv n d)

/-- The value of a finite magnitude, as a ratio. -/
def ratio (x : Magnitude) : Nat × Nat := scaleDown x.significand 1 (-x.binaryExponent)

def ofNat (n : Nat) : Magnitude := ofRatio n 1

/-- The double nearest to `digits * 10 ^ exponent`. Beyond `10 ^ 400` every number rounds to
infinity and below `10 ^ -400` to zero, so that no huge power is ever computed. -/
def ofDecimal (digits : Nat) (exponent : Int) : Magnitude :=
  if digits = 0 then zero
  else if 400 < exponent then infinity
  else if exponent < -(400 + (digits.log2 : Int)) then zero
  else if 0 ≤ exponent then ofRatio (digits * Nat.pow 10 exponent.toNat) 1
  else ofRatio digits (Nat.pow 10 (-exponent).toNat)

/-- The rounded product of two finite magnitudes. -/
def mul (x y : Magnitude) : Magnitude :=
  ofRatio (x.ratio.1 * y.ratio.1) (x.ratio.2 * y.ratio.2)

/-- The rounded quotient of two finite magnitudes, the second of which is not zero. -/
def div (x y : Magnitude) : Magnitude :=
  ofRatio (x.ratio.1 * y.ratio.2) (x.ratio.2 * y.ratio.1)

end Magnitude

def Binary64.ofInt (n : Int64) : Binary64 :=
  .number (n.toInt < 0) (.ofNat n.toInt.natAbs)

end TypedValues
