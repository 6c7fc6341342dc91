import TypedValues.Ty.Basic

/-!
# Kinds

The kind of a value is the outermost shape of its type. It is what every operation on values
tells apart. A type with an open parameter for its shape has the unknown kind.
-/

namespace TypedValues

inductive Kind where
  | unknown
  | void
  | str
  | int
  | float
  | bool
  | list
  | map
  | maybe
  | result
  | struct
  | enum
  | function
  | dynamic
  deriving DecidableEq, Repr

namespace Kind

def ofPrimitive : Primitive → Kind
  | .void => void
  | .str => str
  | .int => int
  | .float => float
  | .bool => bool
  | .dynamic => dynamic

def ofTy : Ty → Kind
  | .prim p => ofPrimitive p
  | .list _ _ => list
  | .map _ _ _ => map
  | .maybe _ _ => maybe
  | .result _ _ _ => result
  | .struct _ _ _ _ => struct
  | .enum _ _ _ => enum
  | .function _ _ _ _ => function
  | .var _ _ => unknown

def ofTy? : Option Ty → Kind
  | none => unknown
  | some t => ofTy t

/-- Scalar kinds: their values never change and are compared by value. -/
def isPrimitive : Kind → Bool
  | void | str | int | float | bool => true
  | _ => false

/-- Kinds whose values own other values. -/
def isContainer : Kind → Bool
  | list | map | struct => true
  | _ => false

/-- Kinds whose values may be changed in place. -/
def isMutable : Kind → Bool
  | list | map | struct | dynamic => true
  | _ => false

def name : Kind → String
  | unknown => "unknown"
  | void => "void"
  | str => "str"
  | int => "int"
  | float => "float"
  | bool => "bool"
  | list => "list"
  | map => "map"
  | maybe => "maybe"
  | result => "result"
  | struct => "struct"
  | enum => "enum"
  | function => "function"
  | dynamic => "dynamic"

def inspect (k : Kind) : String := "Kind::" ++ k.name

end Kind

end TypedValues
