import TypedValues.Kind
import TypedValues.Text.Quoted

/-!
# Faults

A fault reports that an operation met a value it was promised not to meet: a broken invariant
of the caller, never bad input. It says what was expected, and the name of the type that was
found in its place.
-/

namespace TypedValues

/-- The sort of contents that a value has. -/
inductive Shape where
  | absent
  | bool
  | int
  | float
  | str
  | list
  | map
  | function
  | dynamic
  deriving DecidableEq, Repr

def Shape.name : Shape → String
  | absent => "absent"
  | bool => "bool"
  | int => "int"
  | float => "float"
  | str => "str"
  | list => "list"
  | map => "map"
  | function => "function"
  | dynamic => "dynamic"

/-- The contents that an accessor asks for. -/
inductive Wanted where
  | shape (s : Shape)
  /-- The discriminant of an enum member. -/
  | member
  /-- A list or a map. -/
  | collection
  deriving DecidableEq, Repr

def Wanted.name : Wanted → String
  | shape s => s.name
  | member => "enum"
  | collection => "collection"

inductive Expectation where
  /-- A value, or a type, of a kind. -/
  | kind (k : Kind)
  /-- A maybe that is not empty. -/
  | filledMaybe
  /-- Other contents than those found. -/
  | payload (wanted : Wanted) (found : Shape)
  /-- A key of the key type of a map. -/
  | key (keyType : String)
  /-- A key type that can index a map. -/
  | keyable
  /-- The text of a key of the key type. -/
  | keyText (text keyType : String)
  deriving DecidableEq, Repr

def Expectation.text : Expectation → String
  | kind k => k.name
  | filledMaybe => "filled maybe (found None)"
  | payload wanted found => wanted.name ++ " payload (found " ++ found.name ++ " payload)"
  | key keyType => "key of type `" ++ keyType ++ "`"
  | keyable => "Str, Int, Bool, Float or Dynamic key type"
  | keyText text keyType => "map key " ++ Text.quote text ++ " decodable as `" ++ keyType ++ "`"

/-- A fault: what was expected, and the name of the type found. -/
structure Fault where
  expected : Expectation
  found : String
  deriving DecidableEq, Repr

def Fault.message (f : Fault) : String :=
  "internal consistency fault: expected " ++ f.expected.text ++ ", found `" ++ f.found ++ "`"

end TypedValues
