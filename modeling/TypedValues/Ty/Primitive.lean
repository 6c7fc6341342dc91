/-!
# Primitive types

The types without parts, and their names.
-/

namespace TypedValues

/-- The types without parts. -/
inductive Primitive where
  | void
  | str
  | int
  | float
  | bool
  | dynamic
  deriving DecidableEq, Repr

def Primitive.name : Primitive → String
  | .void => "Void"
  | .str => "Str"
  | .int => "Int"
  | .float => "Float"
  | .bool => "Bool"
  | .dynamic => "Dynamic"

end TypedValues
