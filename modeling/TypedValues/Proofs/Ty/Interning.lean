import Mathlib.Data.Set.Card
import TypedValues.Proofs.Ty.Instantiation
import TypedValues.Proofs.Ty.Shards

/-!
# Tables of nodes

A table never has two nodes of one type, and its nodes never share a stamp (`Interner.Consed`), so
that the nodes that it gives are told apart as their types are (`Interner.Consed.sameNode_iff`).
What a computation may do to a table is to add nodes of some types to it, which are given as a set
of types without stamps (`Interning.Adds`).
-/

namespace TypedValues

namespace Ty

theorem sameNode_iff_stamp? {t u : Ty} : t.sameNode u = true ↔
    (∃ p, u = .prim p ∧ t = .prim p) ∨ ∃ s, u.stamp? = some s ∧ t.stamp? = some s := by
  cases t <;> cases u <;> simp [sameNode, stamp?]

theorem sameNode_refl (t : Ty) : t.sameNode t = true := by
  cases t <;> simp [sameNode, stamp?]

theorem bare_of_isPrimitive {t : Ty} (h : t.isPrimitive = true) : t.bare = t := by
  cases t with
  | prim => rfl
  | _ => contradiction

/-- The type, if it is composite, without stamps. -/
def interned (t : Ty) : Set Ty := {b | t.isPrimitive = false ∧ t.bare = b}

end Ty

namespace Interner

/-- The types that a table has, without stamps. -/
def types (interner : Interner) : List Ty := interner.entries.map Ty.bare

/-- A table has no two nodes of one type, and each of its nodes has a stamp of its own. -/
structure Consed (interner : Interner) : Prop where
  types_nodup : interner.types.Nodup
  stamps_nodup : (interner.entries.map Ty.stamp?).Nodup
  stamped : ∀ t ∈ interner.entries, ∃ i < interner.size, t.stamp? = some ⟨interner.table, i⟩

theorem Consed.isPrimitive_eq_false {interner : Interner} {t : Ty} (h : interner.Consed)
    (ht : t ∈ interner.entries) : t.isPrimitive = false := by
  obtain ⟨i, -, hstamp⟩ := h.stamped t ht
  cases t with
  | prim => contradiction
  | _ => rfl

theorem Consed.size_eq_encard {interner : Interner} (h : interner.Consed) :
    (interner.size : ℕ∞) = {b | b ∈ interner.types}.encard := by
  classical
  rw [← List.coe_toFinset, Set.encard_coe_eq_coe_finsetCard,
    List.toFinset_card_of_nodup h.types_nodup, types, List.length_map, size]

theorem consed_empty (table : Nat) : (empty table).Consed := ⟨.nil, .nil, nofun⟩

/-- A table comes from another one by adding nodes of some types. -/
structure Grows (added : Set Ty) (before after : Interner) : Prop where
  consed : before.Consed → after.Consed
  kept : ∀ t ∈ before.entries, t ∈ after.entries
  mem_types : ∀ b, b ∈ after.types ↔ b ∈ before.types ∨ b ∈ added

theorem Grows.refl (interner : Interner) : interner.Grows ∅ interner :=
  ⟨id, fun _ => id, fun b => by simp⟩

theorem Grows.trans {A B : Set Ty} {a b c : Interner} (hab : a.Grows A b) (hbc : b.Grows B c) :
    a.Grows (A ∪ B) c := by
  refine ⟨hbc.consed ∘ hab.consed, fun t ht => hbc.kept t (hab.kept t ht), fun t => ?_⟩
  rw [hbc.mem_types, hab.mem_types, Set.mem_union, or_assoc]

end Interner

/-! ## What a computation adds -/

/-- Whatever the table, a computation adds nodes of the types to it that are not there. -/
def Interning.Adds {α : Type} (x : Interning α) (added : Set Ty) : Prop :=
  ∀ interner : Interner, interner.Grows added (x interner).2

namespace Interning

variable {α β : Type} {x : Interning α} {f : α → Interning β} {A B : Set Ty}

theorem adds_pure (a : α) : Adds (pure a) ∅ := fun interner => .refl interner

theorem Adds.bind (hx : x.Adds A) (hf : ∀ interner, (f (x interner).1).Adds B) :
    (x >>= f).Adds (A ∪ B) := by
  intro interner
  exact (hx interner).trans (hf interner (x interner).2)

theorem Adds.of_eq (hx : x.Adds A) (h : A = B) : x.Adds B := h ▸ hx

end Interning

namespace Interner

variable {t u : Ty} {interner : Interner}

theorem mem_entries_of_find? (h : interner.find? t = some u) :
    u ∈ interner.entries ∧ u.bare = t.bare :=
  ⟨List.mem_of_find?_eq_some h, (Ty.beq_iff_bare u t).mp (List.find?_some (p := (· == t)) h)⟩

theorem not_mem_types_of_find? (h : interner.find? t = none) : t.bare ∉ interner.types := by
  intro hmem
  obtain ⟨u, hu, hbare⟩ := List.mem_map.mp hmem
  exact List.find?_eq_none.mp h u hu ((Ty.beq_iff_bare u t).mpr hbare)

theorem stamp?_restamp (s : Stamp) (h : t.isPrimitive = false) : (t.restamp s).stamp? = some s := by
  cases t with
  | prim => contradiction
  | _ => rfl

/-- The next stamp is not in use yet. -/
theorem Consed.add (h : interner.Consed) (hprim : t.isPrimitive = false)
    (hnew : interner.find? t = none) : (interner.add t).2.Consed := by
  have hstamp : (interner.add t).1.stamp? = some ⟨interner.table, interner.size⟩ :=
    stamp?_restamp _ hprim
  have hsize : (interner.add t).2.size = interner.size + 1 := rfl
  refine ⟨List.nodup_cons.mpr ⟨?_, h.types_nodup⟩, List.nodup_cons.mpr ⟨?_, h.stamps_nodup⟩, ?_⟩
  · rw [Ty.bare_restamp]
    exact not_mem_types_of_find? hnew
  · intro hmem
    obtain ⟨u, hu, hsame⟩ := List.mem_map.mp hmem
    obtain ⟨i, hi, hu'⟩ := h.stamped u hu
    -- stamps are numbered in order, and the last number is not given yet
    have hlast : i = interner.size := congrArg Stamp.index (Option.some.inj (hu'.symm.trans
      (hsame.trans hstamp)))
    omega
  · intro u hu
    rcases List.mem_cons.mp hu with rfl | hu
    · exact ⟨interner.size, by omega, hstamp⟩
    · obtain ⟨i, hi, hu'⟩ := h.stamped u hu
      exact ⟨i, by omega, hu'⟩

theorem adds_intern (t : Ty) : (intern t).Adds t.interned := by
  intro interner
  unfold intern
  split
  · next hprim =>
    refine ⟨id, fun _ => id, fun b => ?_⟩
    simp [Ty.interned, hprim]
  · next hprim =>
    have hprim : t.isPrimitive = false := Bool.eq_false_iff.mpr hprim
    split
    · next node hfind =>
      obtain ⟨hmem, hbare⟩ := mem_entries_of_find? hfind
      refine ⟨id, fun _ => id, fun b => ⟨.inl, ?_⟩⟩
      rintro (hb | ⟨-, rfl⟩)
      · exact hb
      · rw [← hbare]
        exact List.mem_map_of_mem hmem
    · next hfind =>
      refine ⟨fun h => h.add hprim hfind, fun u => List.mem_cons_of_mem _, fun b => ?_⟩
      have htypes : (interner.add t).2.types = t.bare :: interner.types := by
        rw [← Ty.bare_restamp ⟨interner.table, interner.size⟩ t]
        rfl
      rw [htypes, List.mem_cons, or_comm]
      simp [Ty.interned, hprim, eq_comm]

theorem adds_intern_as (t b : Ty) (hprim : t.isPrimitive = false) (hbare : t.bare = b) :
    (intern t).Adds {b} := by
  refine (adds_intern t).of_eq ?_
  ext c
  simp [Ty.interned, hprim, hbare, eq_comm]

/-- A composite type is answered with a node of the table. -/
theorem intern_mem (h : t.isPrimitive = false) (interner : Interner) :
    (intern t interner).1 ∈ (intern t interner).2.entries := by
  unfold intern
  rw [if_neg (Bool.eq_false_iff.mp h)]
  split
  · next hfind => exact (mem_entries_of_find? hfind).1
  · exact List.mem_cons_self

theorem intern_of_isPrimitive (h : t.isPrimitive = true) (interner : Interner) :
    intern t interner = (t, interner) := if_pos h

/-! ## What a node stands for -/

/-- A node is of a type, and in a table unless the type is primitive. -/
structure NodeOf (interner : Interner) (t node : Ty) : Prop where
  bare : node.bare = t.bare
  cases : (t.isPrimitive = true ∧ node = t) ∨ (t.isPrimitive = false ∧ node ∈ interner.entries)

variable {node node' : Ty} {before : Interner} {added : Set Ty}

/-- A table that grows keeps its nodes. -/
theorem NodeOf.mono (h : before.NodeOf t node) (hgrows : before.Grows added interner) :
    interner.NodeOf t node :=
  ⟨h.bare, h.cases.imp_right fun hmem => ⟨hmem.1, hgrows.kept node hmem.2⟩⟩

theorem nodeOf_intern (t : Ty) (interner : Interner) :
    (intern t interner).2.NodeOf t (intern t interner).1 := by
  refine ⟨Ty.bare_intern t interner, ?_⟩
  cases hprim : t.isPrimitive with
  | true => exact .inl ⟨rfl, by rw [intern_of_isPrimitive hprim]⟩
  | false => exact .inr ⟨rfl, intern_mem hprim interner⟩

theorem NodeOf.mem_of_stamp? {s : Stamp} (h : interner.NodeOf t node)
    (hs : node.stamp? = some s) : node ∈ interner.entries := by
  obtain ⟨hprim, rfl⟩ | ⟨-, hmem⟩ := h.cases
  · cases node <;> contradiction
  · exact hmem

/-- Of nodes of one table, the types are equal exactly if the nodes are one. -/
theorem Consed.sameNode_iff (h : interner.Consed) (ht : interner.NodeOf t node)
    (hu : interner.NodeOf u node') : node.sameNode node' = true ↔ t.same u = true := by
  rw [Ty.same_iff_bare, ← ht.bare, ← hu.bare]
  constructor
  · intro hsame
    obtain ⟨p, rfl, rfl⟩ | ⟨s, hs, hs'⟩ := Ty.sameNode_iff_stamp?.mp hsame
    · rfl
    · rw [List.inj_on_of_nodup_map h.stamps_nodup (ht.mem_of_stamp? hs') (hu.mem_of_stamp? hs)
        (hs'.trans hs.symm)]
  · intro hbare
    have hprim : t.isPrimitive = u.isPrimitive := by
      rw [← Ty.isPrimitive_bare t, ← ht.bare, hbare, hu.bare, Ty.isPrimitive_bare]
    obtain ⟨htprim, rfl⟩ | ⟨htprim, hmem⟩ := ht.cases <;>
      obtain ⟨huprim, rfl⟩ | ⟨huprim, hmem'⟩ := hu.cases
    · rw [Ty.bare_of_isPrimitive htprim, Ty.bare_of_isPrimitive huprim] at hbare
      subst hbare
      exact Ty.sameNode_refl node
    · rw [htprim, huprim] at hprim
      contradiction
    · rw [htprim, huprim] at hprim
      contradiction
    · rw [List.inj_on_of_nodup_map h.types_nodup hmem hmem' hbare]
      exact Ty.sameNode_refl node'

end Interner

end TypedValues
