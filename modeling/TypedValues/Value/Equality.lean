import TypedValues.Value.Basic

/-!
# Equality of values

Scalars are equal by value, "not a number" to itself included, enum members by discriminant, and
untyped data by structure. Closures are equal to themselves only, and lists, maps and structs to
themselves only: two of them are one if they are in one place, not if their items are equal. A
filled maybe is compared by its contents and an empty one equals every other empty one. The left
operand decides which comparison is made.
-/

namespace TypedValues

namespace Payload

/-- Equality by value. -/
def sameScalar : Payload → Payload → Bool
  | absent, absent => true
  | bool a, bool b => a == b
  | int a, int b => a == b
  | float a, float b => a.same b
  | str a, str b => a == b
  | _, _ => false

/-- Equality of untyped data, "not a number" being equal to itself at any depth. -/
def sameData : Payload → Payload → Bool
  | dynamic a, dynamic b => HostData.alike Binary64.same a b
  | _, _ => false

/-- Equality of closures: they are one closure. -/
def sameClosure : Payload → Payload → Bool
  | function a, function b => a.id == b.id
  | _, _ => false

/-- Equality of contents of any sort; `samePlace` says whether the two are in one place. -/
def identical (samePlace : Bool) (a b : Payload) : Bool :=
  match a with
  | list _ | map _ => samePlace
  | function _ => sameClosure a b
  | dynamic _ => sameData a b
  | _ => sameScalar a b

end Payload

/-- Whether two values are equal; `samePlace` says whether they are in one place. -/
def Value.equals (samePlace : Bool) (a b : Value) : Bool :=
  match a.kind with
  | .void | .str | .int | .float | .bool | .enum => a.payload.sameScalar b.payload
  | .dynamic => a.payload.sameData b.payload
  | .function => a.payload.sameClosure b.payload
  | .maybe =>
    if a.isNone || b.isNone then a.isNone == b.isNone
    else a.payload.identical samePlace b.payload
  | .list | .map | .struct | .result | .unknown => a.payload.identical samePlace b.payload

end TypedValues
