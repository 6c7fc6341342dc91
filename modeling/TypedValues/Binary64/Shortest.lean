import TypedValues.Binary64.Rounding

/-!
# Shortest decimals

The decimal that is written for a double is the one with the fewest digits that reads back as
it, and of those the nearest; which of two is taken that are equally near is up to the caller. It
is found on the grids of multiples of `10 ^ k`, from coarse to fine: on each grid only the two
neighbours of the value need a look, since rounding is monotone. Whatever the value, the decimal
found reads back as it (`Decimal.toMagnitude_shortest`).
-/

namespace TypedValues

/-- A decimal number `digits * 10 ^ exponent`. -/
structure Decimal where
  digits : Nat
  exponent : Int
  deriving DecidableEq, Repr

/-- Which of two equally near decimals is taken. -/
inductive Tie where
  /-- The greater one. -/
  | up
  /-- The one that ends in an even digit. -/
  | even
  deriving DecidableEq, Repr

/-- Whether the smaller of two equally near decimals is taken, given its digits. -/
def Tie.goesDown (digits : Nat) : Tie → Bool
  | up => false
  | even => digits % 2 == 0

namespace Decimal

def toMagnitude (d : Decimal) : Magnitude := .ofDecimal d.digits d.exponent

/-- The value of a finite magnitude, digit for digit. -/
def exact (x : Magnitude) : Decimal :=
  if 0 ≤ x.binaryExponent then ⟨x.significand <<< x.binaryExponent.toNat, 0⟩
  else ⟨x.significand * Nat.pow 5 (-x.binaryExponent).toNat, x.binaryExponent⟩

def gridRatio (x : Magnitude) (k : Int) : Nat × Nat :=
  let (n, d) := x.ratio
  if 0 ≤ k then (n, d * Nat.pow 10 k.toNat) else (n * Nat.pow 10 (-k).toNat, d)

/-- The two neighbours of `x` on the grid of multiples of `10 ^ k`, the one to prefer first. -/
def neighbours (tie : Tie) (x : Magnitude) (k : Int) : List Decimal :=
  let (n, d) := gridRatio x k
  let below : Decimal := ⟨n / d, k⟩
  let above : Decimal := ⟨n / d + 1, k⟩
  -- twice the distance to `below`, in units of the grid
  let twice := 2 * (n % d)
  if twice < d ∨ twice = d ∧ tie.goesDown (n / d) then [below, above] else [above, below]

/-- The preferred one of the neighbours that read back as `x`. -/
def onGrid? (tie : Tie) (x : Magnitude) (k : Int) : Option Decimal :=
  (neighbours tie x k).find? fun d => d.toMagnitude = x

/-- The first hit on the grids from `10 ^ k` downwards, of which `count` are tried. -/
def search (tie : Tie) (x : Magnitude) (k : Int) : Nat → Decimal
  | 0 => exact x
  | count + 1 => (onGrid? tie x k).getD (search tie x (k - 1) count)

/-- A grid coarser than the first on which a positive finite magnitude is met: three tenths of
the binary logarithm, rounded up. -/
def coarsestGrid (x : Magnitude) : Int :=
  (floorLog2 x.ratio.1 x.ratio.2 + 1) * 30103 / 100000 + 1

/-- The shortest decimal that reads back as `x`. Seventeen digits always suffice, so the search
ends before its last grid. -/
def shortest (tie : Tie) (x : Magnitude) : Decimal :=
  if x.rank = 0 then ⟨0, 0⟩ else search tie x (coarsestGrid x) 20

end Decimal

end TypedValues
