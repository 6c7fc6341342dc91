import TypedValues.Binary64.Basic
import TypedValues.Fault
import TypedValues.HostData.Basic
import TypedValues.Ty.Basic

/-!
# Values

A value is its contents under a label. The label records the type of the value, with the kind
and the name that follow from it, and the narrowing: whether the value is the `Ok` or the `Err`
arm of a result, of which result type if that is known, and whether it is an empty maybe. A
filled maybe has the contents of its element and nothing else of it.

A label is only made from a type (`Label.ofTy`) and given a new type as a whole
(`Label.retype`), so that kind and name always follow the type.
-/

namespace TypedValues

/-- The narrowing of a value, as three independent flags. -/
structure Flags where
  /-- An `Ok` arm. -/
  ok : Bool
  /-- An `Err` arm. -/
  err : Bool
  /-- An empty maybe. -/
  none : Bool
  deriving DecidableEq, Repr

namespace Flags

def empty : Flags := ⟨false, false, false⟩

def names (f : Flags) : List String :=
  (if f.ok then ["OK"] else []) ++ (if f.err then ["ERR"] else []) ++
    (if f.none then ["NONE"] else [])

/-- The flags of an arm: its own is set and that of the other arm cleared. -/
def narrow (branch : Branch) (f : Flags) : Flags :=
  match branch with
  | .ok => { f with ok := true, err := false }
  | .err => { f with ok := false, err := true }

/-- The arm that the flags tell of. -/
def branch? (f : Flags) : Option Branch :=
  if f.ok then some .ok else if f.err then some .err else Option.none

end Flags

/-- What a value records about itself besides its contents. -/
structure Label where
  ty : Ty
  kind : Kind
  name : String
  flags : Flags
  /-- The result type that an arm was narrowed from, if it was kept. -/
  origin : Option Ty

namespace Label

/-- The label of a value of a type, without narrowing. -/
def ofTy (t : Ty) : Label := ⟨t, .ofTy t, t.name, .empty, none⟩

/-- The label with another type; kind and name follow it. -/
def retype (t : Ty) (l : Label) : Label := { l with ty := t, kind := .ofTy t, name := t.name }

/-- The label of an arm of a result type, or of an unknown one. -/
def narrow (branch : Branch) (origin : Option Ty) (l : Label) : Label :=
  { l with flags := l.flags.narrow branch, origin }

end Label

mutual

structure Value where
  label : Label
  payload : Payload

inductive Payload where
  | absent
  | bool (b : Bool)
  /-- An integer, or the discriminant of an enum member. -/
  | int (n : Int64)
  | float (x : Binary64)
  | str (s : String)
  | list (items : List Value)
  /-- The entries of a map by the texts of their keys, or the fields of a struct by name. -/
  | map (entries : List (String × Value))
  | function (c : Closure)
  | dynamic (data : HostData)

/-- Something that can be called. The number tells closures apart that look alike. -/
inductive Closure where
  /-- A function of the host, by the name the host knows it under. -/
  | native (id : Nat) (name : String) (params : List (Param Ty)) (host : String)
  /-- A function without a name; the tag stands for its body. -/
  | lambda (id : Nat) (params : List (Param Ty)) (tag : String)
  /-- A method with its receiver supplied. -/
  | bound (id : Nat) (receiver : Value) (method : Closure)

end

def Payload.shape : Payload → Shape
  | absent => .absent
  | bool _ => .bool
  | int _ => .int
  | float _ => .float
  | str _ => .str
  | list _ => .list
  | map _ => .map
  | function _ => .function
  | dynamic _ => .dynamic

namespace Closure

def id : Closure → Nat
  | native id _ _ _ => id
  | lambda id _ _ => id
  | bound id _ _ => id

/-- The declared name. A bound method has that of the method. -/
def name? : Closure → Option String
  | native _ name _ _ => some name
  | lambda _ _ _ => none
  | bound _ _ method => method.name?

/-- The parameters left to supply, in call order. A bound method has supplied its first. -/
def params : Closure → List (Param Ty)
  | native _ _ params _ => params
  | lambda _ params _ => params
  | bound _ _ method => method.params.tail

def receiver? : Closure → Option Value
  | bound _ receiver _ => some receiver
  | _ => none

end Closure

namespace Value

def ty (v : Value) : Ty := v.label.ty
def kind (v : Value) : Kind := v.label.kind
def typeName (v : Value) : String := v.label.name
def flags (v : Value) : Flags := v.label.flags

/-- The result type that an arm was narrowed from. -/
def origin (v : Value) : Option Ty := v.label.origin

def branch? (v : Value) : Option Branch := v.flags.branch?
def isNone (v : Value) : Bool := v.flags.none
def isVoid (v : Value) : Bool := v.kind == .void

/-! ## Making values -/

/-- A value of a type with any contents. Whether they fit the type is not looked at. -/
def typed (t : Ty) (p : Payload) : Value := ⟨.ofTy t, p⟩

def void : Value := typed .void .absent
def str (s : String) : Value := typed .str (.str s)
def int (n : Int64) : Value := typed .int (.int n)
def float (x : Binary64) : Value := typed .float (.float x)
def bool (b : Bool) : Value := typed .bool (.bool b)
def dynamic (d : HostData) : Value := typed .dynamic (.dynamic d)

/-- A fault unless the type has the kind. -/
def require (k : Kind) (t : Ty) : Except Fault Unit :=
  if Kind.ofTy t = k then .ok () else .error ⟨.kind k, t.name⟩

/-- A value of a type that must have the kind. -/
def typedAs (k : Kind) (t : Ty) (p : Payload) : Except Fault Value :=
  (require k t).map fun _ => typed t p

def list (t : Ty) (items : List Value) : Except Fault Value := typedAs .list t (.list items)
def emptyMap (t : Ty) : Except Fault Value := typedAs .map t (.map [])

/-- A struct; of two values for one field the later counts. Which fields there are is not
looked at. -/
def struct (t : Ty) (fields : List (String × Value)) : Except Fault Value :=
  typedAs .struct t (.map (Dict.ofList fields))

/-- The member of an enum that has the discriminant. -/
def enumMember (t : Ty) (discriminant : Int64) : Except Fault Value :=
  typedAs .enum t (.int discriminant)

def function (t : Ty) (c : Closure) : Except Fault Value := typedAs .function t (.function c)

end Value

end TypedValues
