import TypedValues.Binary64.Basic
import TypedValues.Dict

/-!
# Host data

The untyped data that a host hands over and gets back: what JSON can say, with integers and
floats told apart. Two trees are compared with a comparison of floats that the caller picks:
`Binary64.numEq` gives numeric equality, and `Binary64.same` one that counts "not a number" as
equal to itself.
-/

namespace TypedValues

inductive HostData where
  | null
  | bool (b : Bool)
  | int (n : Int64)
  | float (x : Binary64)
  | str (s : String)
  | seq (items : List HostData)
  | mapping (entries : List (String × HostData))

namespace HostData

/-- The name of the sort of data, as messages give it. -/
def kindName : HostData → String
  | null => "null"
  | bool _ => "bool"
  | int _ => "int"
  | float _ => "float"
  | str _ => "string"
  | seq _ => "sequence"
  | mapping _ => "mapping"

def isNull : HostData → Bool
  | null => true
  | _ => false

/-- A mapping from entries in any order; of two with one key the later counts. -/
def ofEntries (entries : List (String × HostData)) : HostData := mapping (Dict.ofList entries)

variable (sameFloat : Binary64 → Binary64 → Bool)

mutual

/-- Structural equality, floats compared by `sameFloat`. -/
def alike : HostData → HostData → Bool
  | null, null => true
  | bool a, bool b => a == b
  | int a, int b => a == b
  | float a, float b => sameFloat a b
  | str a, str b => a == b
  | seq as, seq bs => alikeItems as bs
  | mapping as, mapping bs => alikeEntries as bs
  | _, _ => false

def alikeItems : List HostData → List HostData → Bool
  | [], [] => true
  | a :: as, b :: bs => alike a b && alikeItems as bs
  | _, _ => false

/-- Equality of mappings: the same keys in the same order, with equal data. -/
def alikeEntries : List (String × HostData) → List (String × HostData) → Bool
  | [], [] => true
  | (k, a) :: as, (l, b) :: bs => k == l && alike a b && alikeEntries as bs
  | _, _ => false

end

end HostData

end TypedValues
