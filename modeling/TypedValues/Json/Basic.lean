import TypedValues.Numeral

/-!
# JSON trees

A JSON text as a tree. Numbers are kept as the numerals they are written as, and the members of
an object in the order they are written in, repeated names included: what a number is worth and
which of two members counts is up to whoever reads the tree.
-/

namespace TypedValues

inductive Json where
  | null
  | bool (b : Bool)
  | number (n : Numeral)
  | str (s : String)
  | arr (items : List Json)
  | obj (members : List (String × Json))

namespace Json

/-- The numerals that JSON allows: no plus sign in front, digits on both sides of a point, and a
leading zero only by itself. -/
def allowsNumeral (n : Numeral) : Bool :=
  n.sign != some .plus && n.fraction != some [] &&
    match n.whole with
    | [] => false
    | '0' :: rest => rest.isEmpty
    | _ => true

end Json

end TypedValues
