/-!
# Decimal numerals

A numeral as it is written: a sign, the digits before and after the point, and a power of ten.
Integers, floats and the numbers of JSON texts are all read and written through numerals; the
grammars that differ (is a bare point allowed, a leading zero, a plus sign) are conditions on
the one numeral that a text denotes.
-/

namespace TypedValues

/-- A sign that is written out. -/
inductive Sign where
  | plus
  | minus
  deriving DecidableEq, Repr

/-- The sign a text starts with, and the rest of the text. -/
def Sign.split : List Char → Option Sign × List Char
  | '+' :: rest => (some .plus, rest)
  | '-' :: rest => (some .minus, rest)
  | rest => (none, rest)

def Sign.apply (sign : Option Sign) (n : Nat) : Int :=
  if sign = some .minus then -(n : Int) else n

/-- A written decimal number. An absent part is told apart from an empty one. -/
structure Numeral where
  sign : Option Sign
  whole : List Char
  fraction : Option (List Char)
  exponent : Option Int
  deriving DecidableEq, Repr

namespace Numeral

/-! ## Reading -/

/-- The power of ten that ends a numeral: `e` or `E`, a sign if any, and at least one digit. -/
def readExponent? : List Char → Option (Option Int)
  | [] => some none
  | e :: rest =>
    if e = 'e' ∨ e = 'E' then
      let (sign, digits) := Sign.split rest
      if digits ≠ [] ∧ digits.all Char.isDigit then
        some (some (Sign.apply sign (Nat.ofDigitChars 10 digits 0)))
      else none
    else none

/-- The digits after the point, if there is a point, and the rest of the text. -/
def splitFraction : List Char → Option (List Char) × List Char
  | '.' :: rest => (some (rest.takeWhile Char.isDigit), rest.dropWhile Char.isDigit)
  | rest => (none, rest)

/-- Reads a whole text as a numeral. Digits may be missing on either side of the point. -/
def read? (text : List Char) : Option Numeral :=
  let (sign, rest) := Sign.split text
  let (fraction, rest') := splitFraction (rest.dropWhile Char.isDigit)
  (readExponent? rest').map fun exponent =>
    { sign, whole := rest.takeWhile Char.isDigit, fraction, exponent }

/-! ## Writing -/

def signText : Option Sign → List Char
  | none => []
  | some .plus => ['+']
  | some .minus => ['-']

/-- The characters of a power of ten; `plus` writes the sign of one that is not negative. -/
def exponentText (plus : Bool) : Option Int → List Char
  | none => []
  | some e =>
    'e' :: ((if e < 0 then ['-'] else if plus then ['+'] else []) ++ Nat.toDigits 10 e.natAbs)

def text (plus : Bool) (n : Numeral) : List Char :=
  signText n.sign ++ n.whole ++
    (match n.fraction with
     | none => []
     | some digits => '.' :: digits) ++
    exponentText plus n.exponent

/-! ## Whole numbers -/

/-- An integer in its shortest form: no plus sign and no leading zero. -/
def ofInt (n : Int) : Numeral where
  sign := if n < 0 then some .minus else none
  whole := Nat.toDigits 10 n.natAbs
  fraction := none
  exponent := none

/-- The integer that a numeral without point and power of ten denotes. -/
def toInt? (n : Numeral) : Option Int :=
  if n.whole ≠ [] ∧ n.fraction = none ∧ n.exponent = none then
    some (Sign.apply n.sign (Nat.ofDigitChars 10 n.whole 0))
  else none

/-! ## The number denoted -/

/-- The digits after the point, none if there is no point. -/
def decimals (n : Numeral) : List Char := n.fraction.getD []

/-- All digits of the numeral, read as one whole number. -/
def digits (n : Numeral) : Nat := Nat.ofDigitChars 10 (n.whole ++ n.decimals) 0

/-- The power of ten that `digits` is multiplied by. -/
def scale (n : Numeral) : Int := n.exponent.getD 0 - n.decimals.length

def hasDigits (n : Numeral) : Bool := !(n.whole ++ n.decimals).isEmpty
def isNegative (n : Numeral) : Bool := n.sign == some .minus

/-! ## 64-bit integers -/

/-- The 64-bit integer of the same value, if there is one. -/
def toInt64? (n : Numeral) : Option Int64 :=
  n.toInt?.bind fun i =>
    if Int64.minValue.toInt ≤ i ∧ i ≤ Int64.maxValue.toInt then some (Int64.ofInt i) else none

end Numeral

def intText (n : Int64) : String := String.ofList ((Numeral.ofInt n.toInt).text false)

/-- Reads a 64-bit integer: a sign if any, then digits, of which leading ones may be zero. -/
def readInt? (text : String) : Option Int64 :=
  (Numeral.read? text.toList).bind Numeral.toInt64?

end TypedValues
