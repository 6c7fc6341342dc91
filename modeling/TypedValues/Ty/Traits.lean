import TypedValues.Ty.Basic

/-!
# Traits of types

What is known of a type at a glance: whether it has an open parameter anywhere in it, and its
category. Only the first is passed on from a part to the whole.
-/

namespace TypedValues

structure Traits where
  hasVar : Bool
  isPrimitive : Bool
  isContainer : Bool
  isFunction : Bool
  isComposite : Bool
  deriving DecidableEq, Repr

namespace Traits

def empty : Traits := ⟨false, false, false, false, false⟩

/-- The traits with their names, in order. -/
def named (t : Traits) : List (String × Bool) :=
  [("HAS_VAR", t.hasVar), ("IS_PRIMITIVE", t.isPrimitive), ("IS_CONTAINER", t.isContainer),
    ("IS_FUNCTION", t.isFunction), ("IS_COMPOSITE", t.isComposite)]

def names (t : Traits) : List String := (t.named.filter (·.2)).map Prod.fst

/-- The traits as bits: the first is bit 0, the categories follow from bit 8 on. -/
def toBits (t : Traits) : Nat :=
  t.hasVar.toNat + 256 * t.isPrimitive.toNat + 512 * t.isContainer.toNat +
    1024 * t.isFunction.toNat + 2048 * t.isComposite.toNat

/-- The traits of bits; a bit that is no trait is dropped. -/
def ofBits (bits : Nat) : Traits :=
  ⟨bits.testBit 0, bits.testBit 8, bits.testBit 9, bits.testBit 10, bits.testBit 11⟩

/-- The traits that pass from a part to the whole. -/
def propagated (t : Traits) : Traits := { empty with hasVar := t.hasVar }

theorem ofBits_toBits (t : Traits) : ofBits t.toBits = t := by
  obtain ⟨a, b, c, d, e⟩ := t
  cases a <;> cases b <;> cases c <;> cases d <;> cases e <;> rfl

end Traits

namespace Ty

/-- The traits of a type. An open parameter is in no category. -/
def traits (t : Ty) : Traits :=
  let base : Traits := { Traits.empty with hasVar := t.hasVar }
  match t with
  | prim _ => { base with isPrimitive := true }
  | list _ _ | map _ _ _ | maybe _ _ | result _ _ _ => { base with isContainer := true }
  | struct _ _ _ _ | enum _ _ _ => { base with isComposite := true }
  | function _ _ _ _ => { base with isFunction := true }
  | var _ _ => base

end Ty

end TypedValues
