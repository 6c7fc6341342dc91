import TypedValues.Ty.Equality

/-!
# Interning types

A table keeps one node of every composite type that was built through it: building a type that
is in the table already gives the node of the table. So of two nodes of one table the types are
equal exactly if the nodes are one. Primitive types are never in a table.
-/

namespace TypedValues

/-- A table of interned types, the latest first. -/
structure Interner where
  table : Nat
  entries : List Ty

namespace Interner

def empty (table : Nat) : Interner := ⟨table, []⟩

/-- How many composite types the table has. -/
def size (interner : Interner) : Nat := interner.entries.length

/-- The node of the table that is the same type. -/
def find? (t : Ty) (interner : Interner) : Option Ty := interner.entries.find? (· == t)

/-- The table with a new node of the type, and the node. -/
def add (t : Ty) (interner : Interner) : Ty × Interner :=
  let node := t.restamp ⟨interner.table, interner.size⟩
  (node, { interner with entries := node :: interner.entries })

end Interner

/-- A computation that may intern types. -/
abbrev Interning := StateM Interner

/-- The node of a type: the primitive itself, the node of the table if there is one, else a new
one. The stamp of `t` itself plays no part, the stamps of its parts are kept. -/
def intern (t : Ty) : Interning Ty := fun interner =>
  if t.isPrimitive then (t, interner)
  else
    match interner.find? t with
    | some node => (node, interner)
    | none => interner.add t

namespace Intern

def list (elem : Ty) : Interning Ty := intern (.list .blank elem)
def map (key value : Ty) : Interning Ty := intern (.map .blank key value)
def maybe (inner : Ty) : Interning Ty := intern (.maybe .blank inner)
def result (ok err : Ty) : Interning Ty := intern (.result .blank ok err)

/-- A struct, with its fields in declaration order. -/
def struct (name : String) (args : List Ty) (fields : List (String × Ty)) : Interning Ty :=
  intern (.struct .blank name args fields)

def enum (name : String) (members : List (String × Int64)) : Interning Ty :=
  intern (.enum .blank name members)

def function (name : Option String) (params : List (Param Ty)) (ret : Ty) : Interning Ty :=
  intern (.function .blank name params ret)

def var (name : String) : Interning Ty := intern (.var .blank name)

end Intern

end TypedValues
