import TypedValues.Binary64.Rounding
import TypedValues.HostData.Basic
import TypedValues.Numeral

/-!
# What a JSON numeral is worth

A numeral without point and power of ten is an integer if it fits into 64 bits; minus zero and
every other numeral is a float. A float is read in two steps: the digits are gathered into a
64-bit significand, digits that do not fit counting as powers of ten or, after the point, not at
all; then the significand, rounded to a double, is multiplied or divided by a power of ten,
itself a double, and rounded again. Up to fifteen digits and powers of ten up to the
twenty-second that is the nearest double; beyond it may be a neighbour. A numeral too great for
a double has no value.
-/

namespace TypedValues

def digitValue (c : Char) : Nat := c.toNat - '0'.toNat

/-- The digits gathered so far. -/
structure Significand where
  value : Nat
  /-- Whether a digit has not fitted. -/
  full : Bool
  /-- The digits taken into `value` since the count began. -/
  taken : Nat
  /-- The digits passed over since the count began. -/
  passed : Nat

namespace Significand

/-- Takes one digit, if no digit was passed over since the count began and it still fits. -/
def push (s : Significand) (c : Char) : Significand :=
  let next := s.value * 10 + digitValue c
  if s.full || UInt64.size ≤ next then { s with full := true, passed := s.passed + 1 }
  else { s with value := next, taken := s.taken + 1 }

/-- Gathers digits after `value`, counting anew. -/
def gather (value : Nat) (digits : List Char) : Significand :=
  digits.foldl push ⟨value, false, 0, 0⟩

end Significand

namespace Magnitude

def powerOfTen (n : Nat) : Magnitude := ofDecimal 1 n

/-- The greatest power of ten that is a double. -/
def maxPowerOfTen : Nat := 308

/-- Multiplies or divides by a power of ten, rounding once more for each power of ten needed.
Past two divisions by the greatest of them a 64-bit number has vanished. -/
def scaleByTen (x : Magnitude) (exponent : Int) : Magnitude :=
  let n := exponent.natAbs
  if x.rank = 0 then x
  else if 0 ≤ exponent then
    if n ≤ maxPowerOfTen then x.mul (powerOfTen n) else infinity
  else if n ≤ maxPowerOfTen then x.div (powerOfTen n)
  else if n ≤ 2 * maxPowerOfTen then
    (x.div (powerOfTen maxPowerOfTen)).div (powerOfTen (n - maxPowerOfTen))
  else zero

end Magnitude

/-- The greatest size of a written power of ten that is taken at its word. -/
def exponentBound : Nat := 0x7fffffff

/-- The float that a numeral is worth, in two steps. -/
def Binary64.ofJsonNumeral? (n : Numeral) : Option Binary64 :=
  -- digits passed over before the point count as powers of ten, those after it not at all
  let whole := Significand.gather 0 n.whole
  let all := Significand.gather whole.value n.decimals
  let written := n.exponent.getD 0
  let magnitude :=
    -- of so great a power of ten only the sign counts
    if exponentBound < written.natAbs then
      if all.value = 0 ∨ written < 0 then Magnitude.zero else Magnitude.infinity
    else (Magnitude.ofNat all.value).scaleByTen (whole.passed - all.taken + written)
  if magnitude.isFinite then some (.number n.isNegative magnitude) else none

/-- The integer that a numeral is worth, if it is worth one. -/
def Numeral.toJsonInt? (n : Numeral) : Option Int64 :=
  -- minus zero is no integer, but a float
  n.toInt64?.bind fun i => if i = 0 ∧ n.isNegative then none else some i

/-- The host data that a numeral is worth. -/
def HostData.ofNumeral? (n : Numeral) : Option HostData :=
  match n.toJsonInt? with
  | some i => some (.int i)
  | none => (Binary64.ofJsonNumeral? n).map .float

end TypedValues
