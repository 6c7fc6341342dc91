import TypedValues.Value.Copy
import TypedValues.Value.Projection
import TypedValues.Value.Refinement

/-!
# Induction over values

A value is built from the values right inside it: the items of a list, or the values under the
keys of a map or a struct. What holds of a value whenever it holds of those holds of every value
(`Value.induction`), and the operations that walk a value do one thing to each of them.
-/

namespace TypedValues

/-- The values right inside contents. The receiver of a closure is not inside the function. -/
def Payload.children : Payload → List Value
  | .list items => items
  | .map entries => entries.map Prod.snd
  | _ => []

def Value.children (v : Value) : List Value := v.payload.children

theorem Payload.sizeOf_lt_of_mem_children {p : Payload} {v : Value} (h : v ∈ p.children) :
    sizeOf v < sizeOf p := by
  cases p with
  | list items =>
    have : sizeOf v < sizeOf items := List.sizeOf_lt_of_mem h
    rw [list.sizeOf_spec]
    omega
  | map entries =>
    obtain ⟨e, he, rfl⟩ := List.mem_map.mp h
    have := sizeOf_snd_lt_of_mem he
    rw [map.sizeOf_spec]
    omega
  | _ => contradiction

/-- What holds of a value whenever it holds of the values right inside it holds of every value. -/
theorem Value.induction {motive : Value → Prop}
    (step : ∀ label payload, (∀ v ∈ payload.children, motive v) → motive ⟨label, payload⟩) :
    ∀ v : Value, motive v
  | ⟨label, payload⟩ => step label payload fun v _ => Value.induction step v
termination_by v => sizeOf v
decreasing_by
  have := Payload.sizeOf_lt_of_mem_children ‹_›
  rw [Value.mk.sizeOf_spec]
  omega

namespace Payload

/-- Items are refined one by one. -/
theorem refineItems_eq_map (elem : Ty) (items : List Value) :
    refineItems elem items = items.map (Value.refine elem) := by
  induction items with
  | nil => rfl
  | cons v rest ih => simp only [refineItems, ih, List.map_cons]

/-- Entries are refined one by one, under the same keys. -/
theorem refineEntries_eq_map (types : String → Option Ty) (entries : List (String × Value)) :
    refineEntries types entries =
      entries.map fun e => (e.1, ((types e.1).map e.2.refine).getD e.2) := by
  induction entries with
  | nil => rfl
  | cons e rest ih =>
    obtain ⟨k, v⟩ := e
    simp only [refineEntries, ih, List.map_cons]
    cases types k <;> rfl

/-- Items are projected one by one. -/
theorem projectItems_eq_map (items : List Value) :
    projectItems items = items.map Value.project := by
  induction items with
  | nil => rfl
  | cons v rest ih => simp only [projectItems, ih, List.map_cons]

/-- Entries are projected one by one, under the same keys. -/
theorem projectEntries_eq_map (entries : List (String × Value)) :
    projectEntries entries = entries.map fun e => (e.1, e.2.project) := by
  induction entries with
  | nil => rfl
  | cons e rest ih =>
    obtain ⟨k, v⟩ := e
    simp only [projectEntries, ih, List.map_cons]

end Payload

end TypedValues
