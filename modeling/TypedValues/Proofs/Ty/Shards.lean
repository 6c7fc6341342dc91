import Mathlib.Algebra.BigOperators.Group.Finset.Piecewise
import TypedValues.Proofs.Ty.Parts
import TypedValues.Ty.Interner
import TypedValues.Ty.Traits

/-!
# Shards

A table may keep its nodes in shards, and look for a type in one shard only: the one that a hash
of the type picks. The hash sees the outermost form of the type and the names of its parts
(`Ty.outline`), while types are compared as a whole. Equal types have one outline, so that whatever
the hash, interning through the shards is interning (`Shards.intern_shards`).
-/

namespace TypedValues

namespace Ty

/-! ## What equal types have in common -/

theorem isPrimitive_bare (t : Ty) : t.bare.isPrimitive = t.isPrimitive := by
  cases t <;> rfl

theorem traits_bare (t : Ty) : t.bare.traits = t.traits := by
  unfold traits
  rw [hasVar_bare]
  cases t <;> rfl

/-- The outermost form of a type, with its parts known by name: all that a hash sees of it. -/
def outline (t : Ty) : Ty := (t.mapParts fun u => .var .blank u.name).restamp .blank

theorem outline_restamp (s : Stamp) (t : Ty) : (t.restamp s).outline = t.outline := by
  rw [outline, mapParts_restamp, restamp_restamp, ← outline]

theorem outline_bare (t : Ty) : t.bare.outline = t.outline := by
  have hname : (fun u : Ty => Ty.var .blank u.bare.name) = fun u => .var .blank u.name := by
    funext u
    rw [name_bare]
  rw [bare_eq_mapParts, outline_restamp, outline, mapParts_mapParts, hname, ← outline]

/-- Equal types have one name and the same traits, and look alike to every hash. -/
theorem looks_eq_of_same {t u : Ty} (h : same t u = true) :
    t.name = u.name ∧ t.traits = u.traits ∧ t.outline = u.outline := by
  have hbare := (same_iff_bare t u).mp h
  refine ⟨name_eq_of_same h, ?_, ?_⟩
  · rw [← traits_bare t, hbare, traits_bare u]
  · rw [← outline_bare t, hbare, outline_bare u]

end Ty

/-! ## A table in shards -/

/-- A table whose nodes are spread over shards. -/
structure Shards where
  table : Nat
  shard : Nat → List Ty

namespace Shards

def count : Nat := 16

/-- The shard that the hash of a type picks. -/
def pick (hash : Ty → Nat) (t : Ty) : Nat := hash t.outline % count

def size (shards : Shards) : Nat := ∑ i ∈ Finset.range count, (shards.shard i).length

/-- The node of a type, looked for in the one shard that the hash picks and added there if it is
new. -/
def intern (hash : Ty → Nat) (t : Ty) : StateM Shards Ty := fun shards =>
  if t.isPrimitive then (t, shards)
  else
    let i := pick hash t
    match (shards.shard i).find? (· == t) with
    | some node => (node, shards)
    | none =>
      let node := t.restamp ⟨shards.table, shards.size⟩
      (node, { shards with shard := Function.update shards.shard i (node :: shards.shard i) })

end Shards

namespace Interner

/-- The nodes of a table, each in the shard that the hash picks for it. -/
def shards (hash : Ty → Nat) (interner : Interner) : Shards where
  table := interner.table
  shard i := interner.entries.filter fun t => Shards.pick hash t == i

variable (hash : Ty → Nat) (interner : Interner) (t : Ty)

/-- The shard that is picked for a type has the node of the type, if the table has one. -/
theorem find?_shard :
    ((interner.shards hash).shard (Shards.pick hash t)).find? (· == t) = interner.find? t := by
  have hpick (u : Ty) (h : (u == t) = true) : Shards.pick hash u = Shards.pick hash t := by
    rw [Ty.beq_eq_same] at h
    rw [Shards.pick, Shards.pick, (Ty.looks_eq_of_same h).2.2]
  rw [shards, find?, List.find?_filter]
  congr 1
  funext u
  cases h : u == t with
  | false => simp
  | true => simp [hpick u h]

theorem size_shards : (interner.shards hash).size = interner.size := by
  rw [Shards.size, size, shards]
  induction interner.entries with
  | nil => simp
  | cons u rest ih =>
    have hpick : Shards.pick hash u ∈ Finset.range Shards.count :=
      Finset.mem_range.mpr (Nat.mod_lt _ (by decide))
    have hlength (i : Nat) : ((u :: rest).filter fun t => Shards.pick hash t == i).length =
        (rest.filter fun t => Shards.pick hash t == i).length +
          if Shards.pick hash u = i then 1 else 0 := by
      rw [List.filter_cons]
      by_cases h : Shards.pick hash u = i <;> simp [h]
    calc ∑ i ∈ Finset.range Shards.count,
          ((u :: rest).filter fun t => Shards.pick hash t == i).length
        = ∑ i ∈ Finset.range Shards.count, (rest.filter fun t => Shards.pick hash t == i).length +
            ∑ i ∈ Finset.range Shards.count, if Shards.pick hash u = i then 1 else 0 := by
          rw [← Finset.sum_add_distrib]
          exact Finset.sum_congr rfl fun i _ => hlength i
      _ = rest.length + 1 := by rw [ih, Finset.sum_ite_eq, if_pos hpick]
      _ = (u :: rest).length := List.length_cons.symm

/-- A new node goes into the shard that is picked for its type, and leaves the others alone. -/
theorem shards_add : (interner.add t).2.shards hash =
    { interner.shards hash with
      shard := Function.update (interner.shards hash).shard (Shards.pick hash t)
        ((interner.add t).1 :: (interner.shards hash).shard (Shards.pick hash t)) } := by
  have hpick : Shards.pick hash (interner.add t).1 = Shards.pick hash t := by
    rw [add, Shards.pick, Ty.outline_restamp, ← Shards.pick]
  refine congrArg (Shards.mk interner.table) (funext fun i => ?_)
  show ((interner.add t).1 :: interner.entries).filter (fun u => Shards.pick hash u == i) = _
  rw [List.filter_cons, hpick]
  by_cases h : Shards.pick hash t = i
  · subst h
    simp [shards]
  · rw [Function.update_of_ne (Ne.symm h)]
    simp [h, shards]

end Interner

/-- Interning a type through the shards of a table, whatever the hash, gives the node that the
table gives for it, and the shards of the table after it. -/
theorem Shards.intern_shards (hash : Ty → Nat) (t : Ty) (interner : Interner) :
    Shards.intern hash t (interner.shards hash) =
      ((TypedValues.intern t interner).1, (TypedValues.intern t interner).2.shards hash) := by
  unfold Shards.intern TypedValues.intern
  by_cases hprim : t.isPrimitive = true
  · simp [hprim]
  · rw [if_neg hprim, if_neg hprim]
    dsimp only
    rw [Interner.find?_shard]
    cases interner.find? t with
    | some node => rfl
    | none =>
      dsimp only
      rw [Interner.size_shards]
      exact Prod.ext rfl (Interner.shards_add hash interner t).symm

end TypedValues
