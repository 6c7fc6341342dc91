import TypedValues.Dict
import TypedValues.Ty.Name
import TypedValues.Ty.Primitive

/-!
# Types

The types that values carry at run time. A composite type is a node with a stamp: the place it
has in the table that interned it. The stamp says which node it is and nothing about which type
it is, so comparing types passes over stamps (`Ty.same`), and comparing nodes looks at nothing
else (`Ty.sameNode`). Primitive types have one node each.

A node keeps its name and whether it is open, both found from those of its parts when it is
built: a type may share a part many times over, and going through all of it can take far longer
than building it.
-/

namespace TypedValues

/-- The place of a node: the table that interned it, and how many were interned there before. -/
structure Stamp where
  table : Nat
  index : Nat
  deriving DecidableEq, Repr

/-- The stamp of a type that is in no table. -/
def Stamp.blank : Stamp := ⟨0, 0⟩

inductive Branch where
  | ok
  | err
  deriving DecidableEq, Repr

structure Param (α : Type) where
  name : String
  ty : α
  /-- The callee may change the argument in place. -/
  mutable : Bool

/-- The type of a parameter is smaller than the parameters it is among. -/
theorem Param.sizeOf_ty_lt_of_mem {α : Type} [SizeOf α] {p : Param α} {ps : List (Param α)}
    (h : p ∈ ps) : sizeOf p.ty < sizeOf ps := by
  have := List.sizeOf_lt_of_mem h
  obtain ⟨n, t, m⟩ := p
  simp only [Param.mk.sizeOf_spec] at this ⊢
  omega

inductive Ty where
  | prim (p : Primitive)
  | list (stamp : Stamp) (elem : Ty)
  | map (stamp : Stamp) (key value : Ty)
  | maybe (stamp : Stamp) (inner : Ty)
  | result (stamp : Stamp) (ok err : Ty)
  /-- A declared struct. The arguments of a generic struct are shown and otherwise unused. -/
  | struct (stamp : Stamp) (name : String) (args : List Ty) (fields : List (String × Ty))
  /-- A declared enum, as its members with their discriminants. -/
  | enum (stamp : Stamp) (name : String) (members : List (String × Int64))
  | function (stamp : Stamp) (name : Option String) (params : List (Param Ty)) (ret : Ty)
  /-- An open generic parameter. -/
  | var (stamp : Stamp) (name : String)
with
  /-- The rendered name. -/
  @[computed_field] name : Ty → String
    | .prim p => p.name
    | .list _ elem => TypeName.list elem.name
    | .map _ key value => TypeName.map key.name value.name
    | .maybe _ inner => TypeName.maybe inner.name
    | .result _ ok err => TypeName.result ok.name err.name
    | .struct _ n args _ =>
      TypeName.struct n (args.attach.map fun t => have := List.sizeOf_lt_of_mem t.2; t.1.name)
    | .enum _ n _ => n
    | .function _ n params ret =>
      let retName := ret.name
      TypeName.function n
        (params.attach.map fun p => have := Param.sizeOf_ty_lt_of_mem p.2; p.1.ty.name)
        (match ret with | .prim .void => none | _ => some retName)
    | .var _ n => TypeName.var n
  /-- Whether the type has an open parameter anywhere in it. -/
  @[computed_field] hasVar : Ty → Bool
    | .prim _ => false
    | .list _ elem => elem.hasVar
    | .map _ key value => key.hasVar || value.hasVar
    | .maybe _ inner => inner.hasVar
    | .result _ ok err => ok.hasVar || err.hasVar
    | .struct _ _ args fields =>
      (args.attach.any fun t => have := List.sizeOf_lt_of_mem t.2; t.1.hasVar) ||
        fields.attach.any fun f => have := sizeOf_snd_lt_of_mem f.2; f.1.2.hasVar
    | .enum _ _ _ => false
    | .function _ _ params ret =>
      (params.attach.any fun p => have := Param.sizeOf_ty_lt_of_mem p.2; p.1.ty.hasVar) ||
        ret.hasVar
    | .var _ _ => true

namespace Ty

abbrev void : Ty := prim .void
abbrev str : Ty := prim .str
abbrev int : Ty := prim .int
abbrev float : Ty := prim .float
abbrev bool : Ty := prim .bool
abbrev dynamic : Ty := prim .dynamic

/-! ## Name and openness, form by form -/

/-- The name of a type as that of what a function returns, which is left out of the name of the
function if there is no value to return. -/
def returnName? : Ty → Option String
  | prim .void => none
  | t => some t.name

@[simp]
theorem name_prim (p : Primitive) : (prim p).name = p.name := by rw [name]

@[simp]
theorem name_list (s : Stamp) (t : Ty) : (list s t).name = TypeName.list t.name := by rw [name]

@[simp]
theorem name_map (s : Stamp) (k v : Ty) : (map s k v).name = TypeName.map k.name v.name := by
  rw [name]

@[simp]
theorem name_maybe (s : Stamp) (t : Ty) : (maybe s t).name = TypeName.maybe t.name := by rw [name]

@[simp]
theorem name_result (s : Stamp) (t e : Ty) :
    (result s t e).name = TypeName.result t.name e.name := by
  rw [name]

@[simp]
theorem name_struct (s : Stamp) (n : String) (args : List Ty) (fields : List (String × Ty)) :
    (struct s n args fields).name = TypeName.struct n (args.map name) := by
  simp [name]

@[simp]
theorem name_enum (s : Stamp) (n : String) (members : List (String × Int64)) :
    (enum s n members).name = n := by
  rw [name]

@[simp]
theorem name_function (s : Stamp) (n : Option String) (params : List (Param Ty)) (ret : Ty) :
    (function s n params ret).name =
      TypeName.function n (params.map fun p => p.ty.name) ret.returnName? := by
  rw [name.eq_def]
  simp only [List.map_subtype, List.unattach_attach]
  cases ret with
  | prim p => cases p <;> rfl
  | _ => rfl

@[simp]
theorem name_var (s : Stamp) (n : String) : (var s n).name = TypeName.var n := by rw [name]

@[simp]
theorem hasVar_prim (p : Primitive) : (prim p).hasVar = false := by rw [hasVar]

@[simp]
theorem hasVar_list (s : Stamp) (t : Ty) : (list s t).hasVar = t.hasVar := by rw [hasVar]

@[simp]
theorem hasVar_map (s : Stamp) (k v : Ty) : (map s k v).hasVar = (k.hasVar || v.hasVar) := by
  rw [hasVar]

@[simp]
theorem hasVar_maybe (s : Stamp) (t : Ty) : (maybe s t).hasVar = t.hasVar := by rw [hasVar]

@[simp]
theorem hasVar_result (s : Stamp) (t e : Ty) :
    (result s t e).hasVar = (t.hasVar || e.hasVar) := by
  rw [hasVar]

@[simp]
theorem hasVar_struct (s : Stamp) (n : String) (args : List Ty) (fields : List (String × Ty)) :
    (struct s n args fields).hasVar =
      (args.any hasVar || fields.any fun f => f.2.hasVar) := by
  rw [hasVar, Bool.eq_iff_iff]
  simp

@[simp]
theorem hasVar_enum (s : Stamp) (n : String) (members : List (String × Int64)) :
    (enum s n members).hasVar = false := by
  rw [hasVar]

@[simp]
theorem hasVar_function (s : Stamp) (n : Option String) (params : List (Param Ty)) (ret : Ty) :
    (function s n params ret).hasVar = ((params.any fun p => p.ty.hasVar) || ret.hasVar) := by
  simp [hasVar]

@[simp]
theorem hasVar_var (s : Stamp) (n : String) : (var s n).hasVar = true := by rw [hasVar]

/-- Whether the rendered name has the mark of an open parameter in it. -/
def hasGenerics (t : Ty) : Bool := TypeName.isGeneric t.name

/-! ## Shape -/

def isPrimitive : Ty → Bool
  | prim _ => true
  | _ => false

def isMaybe : Ty → Bool
  | maybe _ _ => true
  | _ => false

def isResult : Ty → Bool
  | result _ _ _ => true
  | _ => false

def isVar : Ty → Bool
  | var _ _ => true
  | _ => false

def elem? : Ty → Option Ty
  | list _ elem => some elem
  | _ => none

def key? : Ty → Option Ty
  | map _ key _ => some key
  | _ => none

def value? : Ty → Option Ty
  | map _ _ value => some value
  | _ => none

def inner? : Ty → Option Ty
  | maybe _ inner => some inner
  | _ => none

def arm? : Branch → Ty → Option Ty
  | .ok, result _ ok _ => some ok
  | .err, result _ _ err => some err
  | _, _ => none

/-- The declared fields of a struct, in declaration order. -/
def fields : Ty → List (String × Ty)
  | struct _ _ _ fields => fields
  | _ => []

/-- The type of the first field of a name. -/
def field? (name : String) (t : Ty) : Option Ty := t.fields.lookup name

def members : Ty → List (String × Int64)
  | enum _ _ members => members
  | _ => []

/-- The discriminant of the first member of a name. -/
def discriminant? (name : String) (t : Ty) : Option Int64 := t.members.lookup name

/-- The name of the first member with a discriminant. -/
def memberName? (discriminant : Int64) (t : Ty) : Option String :=
  (t.members.find? (·.2 == discriminant)).map Prod.fst

def args? : Ty → Option (List Ty)
  | struct _ _ args _ => some args
  | _ => none

def params : Ty → List (Param Ty)
  | function _ _ params _ => params
  | _ => []

def ret? : Ty → Option Ty
  | function _ _ _ ret => some ret
  | _ => none

def functionName? : Ty → Option String
  | function _ name _ _ => name
  | _ => none

/-! ## Identity and equality -/

/-- The stamp of a composite type. -/
def stamp? : Ty → Option Stamp
  | prim _ => none
  | list s _ | map s _ _ | maybe s _ | result s _ _ | struct s _ _ _ | enum s _ _
  | function s _ _ _ | var s _ => some s

/-- The type with another stamp; its parts keep theirs. -/
def restamp (s : Stamp) : Ty → Ty
  | prim p => prim p
  | list _ elem => list s elem
  | map _ key value => map s key value
  | maybe _ inner => maybe s inner
  | result _ ok err => result s ok err
  | struct _ name args fields => struct s name args fields
  | enum _ name members => enum s name members
  | function _ name params ret => function s name params ret
  | var _ name => var s name

/-- Whether two types are one node. -/
def sameNode : Ty → Ty → Bool
  | prim p, prim q => p == q
  | t, u => t.stamp?.isSome && t.stamp? == u.stamp?

mutual

/-- Whether two types are equal, stamps aside. -/
def same : Ty → Ty → Bool
  | prim p, prim q => p == q
  | list _ t, list _ u => same t u
  | map _ k v, map _ l w => same k l && same v w
  | maybe _ t, maybe _ u => same t u
  | result _ t e, result _ u f => same t u && same e f
  | struct _ n as fs, struct _ m bs gs => n == m && sameAll as bs && sameFields fs gs
  | enum _ n ms, enum _ m ns => n == m && ms == ns
  | function _ n ps r, function _ m qs s => n == m && sameParams ps qs && same r s
  | var _ n, var _ m => n == m
  | _, _ => false

def sameAll : List Ty → List Ty → Bool
  | [], [] => true
  | t :: ts, u :: us => same t u && sameAll ts us
  | _, _ => false

/-- Equality of declared fields, names and order included. -/
def sameFields : List (String × Ty) → List (String × Ty) → Bool
  | [], [] => true
  | (n, t) :: ts, (m, u) :: us => n == m && same t u && sameFields ts us
  | _, _ => false

def sameParams : List (Param Ty) → List (Param Ty) → Bool
  | [], [] => true
  | ⟨n, t, c⟩ :: ts, ⟨m, u, d⟩ :: us => n == m && c == d && same t u && sameParams ts us
  | _, _ => false

end

end Ty

end TypedValues
