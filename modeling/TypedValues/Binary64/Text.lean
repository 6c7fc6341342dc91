import TypedValues.Binary64.Shortest
import TypedValues.Numeral

/-!
# Doubles as text

Where the point stands, whether a whole number keeps a fraction, when a power of ten is written
and which of two equally near decimals is taken are the choices of a layout; the digits are
always the shortest ones. Three layouts are in use: plain text, inspection and JSON.
-/

namespace TypedValues

/-- How the digits of a double are laid out. -/
structure Layout where
  /-- A whole number written without power of ten ends in `.0`. -/
  pointZero : Bool
  /-- The least and the greatest decimal exponent written without power of ten; all if absent. -/
  positional : Option (Int × Int)
  /-- A power of ten that is not negative has a plus sign. -/
  plusExponent : Bool
  /-- Which of two equally near shortest decimals is written. -/
  tie : Tie

namespace Layout

/-- Plain text: never a power of ten, and no fraction for whole numbers. -/
def plain : Layout := ⟨false, none, false, .up⟩

/-- Inspection: always told apart from an integer; powers of ten outside `0.0001` to `10 ^ 16`. -/
def inspection : Layout := ⟨true, some (-4, 15), false, .up⟩

/-- JSON: always told apart from an integer; powers of ten outside `0.00001` to `10 ^ 16`. -/
def json : Layout := ⟨true, some (-5, 15), true, .even⟩

/-- Whether a number of this decimal exponent is written without power of ten. -/
def isPositional (layout : Layout) (exponent : Int) : Bool :=
  match layout.positional with
  | none => true
  | some (least, greatest) => least ≤ exponent && exponent ≤ greatest

end Layout

namespace Decimal

/-- The fraction of a number whose digits after the point are `digits`. -/
def fractionPart (pointZero : Bool) (digits : List Char) : Option (List Char) :=
  if digits ≠ [] then some digits
  else if pointZero then some ['0']
  else none

/-- The digits with a point after the first `point` of them, filled up with zeros. -/
def positional (pointZero : Bool) (sign : Option Sign) (digits : List Char) (point : Int) :
    Numeral :=
  let whole := digits.take point.toNat ++ List.replicate (point.toNat - digits.length) '0'
  { sign
    whole := if whole = [] then ['0'] else whole
    fraction := fractionPart pointZero
      (List.replicate (-point).toNat '0' ++ digits.drop point.toNat)
    exponent := none }

/-- The digits with a point after the first of them, and the power of ten. -/
def scientific (sign : Option Sign) (digits : List Char) (exponent : Int) : Numeral where
  sign
  whole := digits.take 1
  fraction := fractionPart false (digits.drop 1)
  exponent := some exponent

/-- The numeral of a decimal. Its decimal exponent is that of its first digit. -/
def numeral (layout : Layout) (sign : Option Sign) (d : Decimal) : Numeral :=
  let digits := Nat.toDigits 10 d.digits
  let point : Int := digits.length + d.exponent
  if layout.isPositional (point - 1) then positional layout.pointZero sign digits point
  else scientific sign digits (point - 1)

end Decimal

namespace Binary64

def signOf (negative : Bool) : Option Sign := if negative then some .minus else none

def numeral (layout : Layout) (negative : Bool) (x : Magnitude) : Numeral :=
  (Decimal.shortest layout.tie x).numeral layout (signOf negative)

def text (layout : Layout) : Binary64 → List Char
  | nan _ _ => ['N', 'a', 'N']
  | number negative x =>
    if x.isFinite then (numeral layout negative x).text layout.plusExponent
    else Numeral.signText (signOf negative) ++ ['i', 'n', 'f']

/-- The double that a numeral denotes, correctly rounded. -/
def ofNumeral (n : Numeral) : Binary64 :=
  number n.isNegative (.ofDecimal n.digits n.scale)

/-- Reads a double: a sign if any, then `inf`, `infinity` or `nan` in any case, or digits with a
point and a power of ten if any. -/
def read? (text : List Char) : Option Binary64 :=
  let (sign, rest) := Sign.split text
  let word := rest.map Char.toLower
  if word = ['i', 'n', 'f'] ∨ word = ['i', 'n', 'f', 'i', 'n', 'i', 't', 'y'] then
    some (number (sign == some .minus) .infinity)
  else if word = ['n', 'a', 'n'] then some (nan (sign == some .minus))
  else (Numeral.read? text).bind fun n => if n.hasDigits then some (ofNumeral n) else none

end Binary64

end TypedValues
