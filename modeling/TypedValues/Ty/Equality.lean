import TypedValues.Ty.Bare

/-!
# Testing types for equality

`Ty.same` says when two types are equal by going through both. The test `t == u` gives the same
answer (`beq_eq_same`), and passes over every pair of parts that is one object in memory: a type
is equal to itself, so nothing in there can change the answer. Two types built from the same
parts are so compared in few steps, however often the parts share parts of their own.
-/

namespace TypedValues

/-- The answer to the question whether `p` holds. -/
structure Answer (p : Prop) where
  yes : Bool
  yes_iff : yes = true ↔ p

namespace Answer

variable {p q : Prop}

@[inline]
def ofBool (b : Bool) : Answer (b = true) := ⟨b, .rfl⟩

/-- The answer to a question that is decided. -/
@[inline]
def ofDecidable (p : Prop) [Decidable p] : Answer p := ⟨decide p, decide_eq_true_iff⟩

/-- The answer, to a question that comes to the same. -/
@[inline]
def congr (h : p ↔ q) (x : Answer p) : Answer q := ⟨x.yes, x.yes_iff.trans h⟩

/-- Whether both hold. The second question is only asked after a yes to the first. -/
@[inline]
def both (x : Answer p) (y : Unit → Answer q) : Answer (p ∧ q) :=
  ⟨x.yes && (y ()).yes, by rw [Bool.and_eq_true, x.yes_iff, (y ()).yes_iff]⟩

/-- Whether two things stand in a relation in which everything stands to itself. The question is
only asked of two objects, not of one object in memory and itself. -/
@[inline]
def ofShared {α : Type} {r : α → α → Prop} (h : ∀ x, r x x) (x y : α)
    (ask : Unit → Answer (r x y)) : Answer (r x y) :=
  ⟨withPtrEq x y (fun _ => (ask ()).yes) fun e => (ask ()).yes_iff.mpr (e ▸ h x), (ask ()).yes_iff⟩

end Answer

namespace Ty

mutual

def askSame (t u : Ty) : Answer (same t u = true) :=
  .ofShared same_refl t u fun _ =>
    match t, u with
    | list _ t, list _ u => (askSame t u).congr (by simp [same])
    | map _ k v, map _ l w =>
      ((askSame k l).both fun _ => askSame v w).congr (by simp [same])
    | maybe _ t, maybe _ u => (askSame t u).congr (by simp [same])
    | result _ t e, result _ u f =>
      ((askSame t u).both fun _ => askSame e f).congr (by simp [same])
    | struct _ n as fs, struct _ m bs gs =>
      ((Answer.ofDecidable (n = m)).both fun _ =>
        (askSameAll as bs).both fun _ => askSameFields fs gs).congr (by simp [same, and_assoc])
    | function _ n ps r, function _ m qs s =>
      ((Answer.ofDecidable (n = m)).both fun _ =>
        (askSameParams ps qs).both fun _ => askSame r s).congr (by simp [same, and_assoc])
    | t, u => .ofBool (same t u)

def askSameAll : (ts us : List Ty) → Answer (sameAll ts us = true)
  | t :: ts, u :: us => ((askSame t u).both fun _ => askSameAll ts us).congr (by simp [sameAll])
  | ts, us => .ofBool (sameAll ts us)

def askSameFields : (fs gs : List (String × Ty)) → Answer (sameFields fs gs = true)
  | (n, t) :: fs, (m, u) :: gs =>
    ((Answer.ofDecidable (n = m)).both fun _ =>
      (askSame t u).both fun _ => askSameFields fs gs).congr (by simp [sameFields, and_assoc])
  | fs, gs => .ofBool (sameFields fs gs)

def askSameParams : (ps qs : List (Param Ty)) → Answer (sameParams ps qs = true)
  | ⟨n, t, c⟩ :: ps, ⟨m, u, d⟩ :: qs =>
    ((Answer.ofDecidable (n = m ∧ c = d)).both fun _ =>
      (askSame t u).both fun _ => askSameParams ps qs).congr (by simp [sameParams, and_assoc])
  | ps, qs => .ofBool (sameParams ps qs)

end

/-- Whether two types are equal; most types that differ differ by name. -/
def askEqual (t u : Ty) : Answer (same t u = true) :=
  .ofShared (r := (same · · = true)) same_refl t u fun _ =>
    ((Answer.ofDecidable (t.name = u.name)).both fun _ => askSame t u).congr
      ⟨And.right, fun h => ⟨name_eq_of_same h, h⟩⟩

/-- Equality of types, stamps aside. -/
instance : BEq Ty := ⟨fun t u => (askEqual t u).yes⟩

theorem beq_eq_same (t u : Ty) : (t == u) = same t u :=
  Bool.eq_iff_iff.mpr (askEqual t u).yes_iff

theorem beq_iff_bare (t u : Ty) : (t == u) = true ↔ t.bare = u.bare := by
  rw [beq_eq_same, same_iff_bare]

end Ty

end TypedValues
