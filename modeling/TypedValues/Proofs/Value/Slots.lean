import TypedValues.Proofs.Everywhere
import TypedValues.Proofs.Ty.Parts
import TypedValues.Value.Induction

/-!
# Slots

A value stands inside another as an item of a list, or under the key of an entry. A type declares
what stands in a slot: the element type of a list, the value type of a map, the type of a
declared field. Refinement hands each value the type declared for its slot
(`Payload.refine_eq_mapSlots`), so that nothing said about it tells lists, maps and structs apart.
-/

namespace TypedValues

/-- Where a value stands inside another. -/
inductive Slot where
  | item
  | entry (key : String)
  deriving DecidableEq

/-- The type that a type declares for a slot. -/
def Ty.slot? : Slot → Ty → Option Ty
  | .item, .list _ elem => some elem
  | .entry _, .map _ _ value => some value
  | .entry key, .struct _ _ _ fields => fields.lookup key
  | _, _ => none

namespace Ty

theorem slot?_mapParts {f : Ty → Ty} (s : Slot) (t : Ty) :
    (t.mapParts f).slot? s = (t.slot? s).map f := by
  cases s with
  | item => cases t <;> rfl
  | entry key =>
    cases t with
    | struct _ _ _ fields =>
      show (fields.map fun x => (x.1, f x.2)).lookup key = (fields.lookup key).map f
      induction fields with
      | nil => rfl
      | cons x rest ih =>
        rw [List.map_cons, List.lookup_cons, List.lookup_cons, ih]
        split <;> rfl
    | _ => rfl

theorem slot?_bare (s : Slot) (t : Ty) : t.bare.slot? s = (t.slot? s).map bare := by
  have hrestamp (b : Stamp) (u : Ty) : (u.restamp b).slot? s = u.slot? s := by
    cases s <;> cases u <;> rfl
  rw [bare_eq_mapParts, hrestamp, slot?_mapParts]

/-- Types with one bare type declare types with one bare type. -/
theorem slot?_congr {t u d : Ty} {s : Slot} (h : t.bare = u.bare) (hs : t.slot? s = some d) :
    ∃ e, u.slot? s = some e ∧ d.bare = e.bare := by
  have hmap : (t.slot? s).map bare = (u.slot? s).map bare := by
    rw [← slot?_bare, h, slot?_bare]
  exact exists_of_map_bare hmap hs

/-- What a type declares for a slot is a part of it. -/
theorem mem_parts_of_slot? {t u : Ty} {s : Slot} (h : t.slot? s = some u) : u ∈ t.parts := by
  cases s with
  | item => cases t <;> simp_all [slot?, parts]
  | entry key =>
    cases t with
    | struct _ _ args fields =>
      obtain ⟨l₁, l₂, hfields, -⟩ := List.lookup_eq_some_iff.mp h
      exact List.mem_append_right _ (List.mem_map.mpr ⟨(key, u), by simp [hfields], rfl⟩)
    | _ => simp_all [slot?, parts]

end Ty

namespace Payload

/-- The values right inside contents, with their slots. -/
def slots : Payload → List (Slot × Value)
  | .list items => items.map fun v => (.item, v)
  | .map entries => entries.map fun e => (.entry e.1, e.2)
  | _ => []

/-- The contents with every value right inside rewritten. -/
def mapSlots (f : Slot → Value → Value) : Payload → Payload
  | .list items => .list (items.map (f .item))
  | .map entries => .map (entries.map fun e => (e.1, f (.entry e.1) e.2))
  | p => p

variable {f g : Slot → Value → Value}

theorem slots_mapSlots (p : Payload) : (p.mapSlots f).slots = p.slots.map fun c => (c.1, f c.1 c.2) := by
  cases p <;> simp [mapSlots, slots]

theorem children_eq_map_slots (p : Payload) : p.children = p.slots.map Prod.snd := by
  cases p <;> simp [children, slots, Function.comp_def]

theorem mem_children {p : Payload} {v : Value} : v ∈ p.children ↔ ∃ s, (s, v) ∈ p.slots := by
  rw [children_eq_map_slots]
  simp

theorem mapSlots_congr {p : Payload} (h : ∀ c ∈ p.slots, f c.1 c.2 = g c.1 c.2) :
    p.mapSlots f = p.mapSlots g := by
  cases p with
  | list items => simpa [mapSlots, slots] using h
  | map entries =>
    have hentries : (entries.map fun e => (e.1, f (.entry e.1) e.2)) =
        entries.map fun e => (e.1, g (.entry e.1) e.2) :=
      List.map_congr_left fun e he => by rw [h (.entry e.1, e.2) (List.mem_map_of_mem he)]
    rw [mapSlots, mapSlots, hentries]
  | _ => rfl

/-- Contents that are rewritten alike are rewritten alike in every slot. -/
theorem eq_of_mapSlots_eq {p : Payload} (h : p.mapSlots f = p.mapSlots g) :
    ∀ c ∈ p.slots, f c.1 c.2 = g c.1 c.2 := by
  have hslots := congrArg slots h
  rw [slots_mapSlots, slots_mapSlots] at hslots
  intro c hc
  exact congrArg Prod.snd (List.map_inj_left.mp hslots c hc)

theorem mapSlots_id (p : Payload) : p.mapSlots (fun _ v => v) = p := by
  cases p <;> simp [mapSlots]

theorem mapSlots_mapSlots (p : Payload) :
    (p.mapSlots f).mapSlots g = p.mapSlots fun s v => g s (f s v) := by
  cases p <;> simp [mapSlots, Function.comp_def]

/-- The value as it is after refinement against the type declared for its slot, if there is one. -/
def refineSlot (declared : Ty) (s : Slot) (v : Value) : Value :=
  ((declared.slot? s).map v.refine).getD v

theorem refine_eq_mapSlots (declared : Ty) (p : Payload) :
    p.refine declared = p.mapSlots (refineSlot declared) := by
  cases p with
  | list items =>
    show _ = list (items.map fun v => ((declared.slot? .item).map v.refine).getD v)
    cases declared <;> simp [refine, Ty.slot?, refineItems_eq_map]
  | map entries =>
    show _ = map (entries.map fun e => (e.1, ((declared.slot? (.entry e.1)).map e.2.refine).getD e.2))
    cases declared <;> simp [refine, Ty.slot?, refineEntries_eq_map]
  | _ => rfl

theorem copy_eq_mapSlots (p : Payload) : p.copy = p.mapSlots fun _ v => v.copy := by
  cases p with
  | list items => rw [copy, mapSlots, copyItems_eq_map]
  | map entries => rw [copy, mapSlots, copyEntries_eq_map]
  | _ => rfl

theorem mem_children_mapSlots {p : Payload} {v : Value} :
    v ∈ (p.mapSlots f).children ↔ ∃ c ∈ p.slots, f c.1 c.2 = v := by
  rw [children_eq_map_slots, slots_mapSlots]
  simp

end Payload

end TypedValues
