import Mathlib.Logic.Relation
import TypedValues.Proofs.Ty.Instantiation
import TypedValues.Proofs.Ty.Shards

/-!
# What the name of a type shows

Whether a type is open is asked in two ways: refinement looks for the mark of a parameter in the
name, substitution reads the trait of having one. The name shows all parts of a type but the
fields of a struct, and declared names show as they are; the trait sees every part and no name. So
the two go apart where a struct hides an open field or a declared name has the mark in it, and
nowhere else (`Ty.hasGenerics_eq_hasVar_iff`).
-/

namespace TypedValues.Ty

/-- The name of the second type shows in that of the first, as its own or as that of a part. -/
def Shows (t u : Ty) : Prop := Relation.ReflTransGen (fun t u => u ∈ t.shownParts) t u

/-- The parts whose names do not show: the fields of a struct. -/
def hiddenParts : Ty → List Ty
  | struct _ _ _ fields => fields.map Prod.snd
  | _ => []

/-- Whether a part that does not show is open. -/
def hidesOpen (t : Ty) : Bool := t.hiddenParts.any hasVar

/-- Whether the mark of a parameter is in the name that the type was declared with. -/
def isMarked (t : Ty) : Bool := t.declaredName?.any TypeName.isGeneric

theorem parts_eq_shown_append_hidden (t : Ty) : t.parts = t.shownParts ++ t.hiddenParts := by
  cases t <;> simp [shownParts, hiddenParts, parts]

/-- What holds of a type by itself or by a shown part holds exactly of the types that show one of
which it holds by itself. -/
theorem iff_shows {p own : Ty → Bool} (hp : ∀ t, p t = (own t || t.shownParts.any p)) (t : Ty) :
    p t = true ↔ ∃ u, t.Shows u ∧ own u = true := by
  constructor
  · intro h
    induction t using induction with
    | step t ih =>
      rw [hp, Bool.or_eq_true, List.any_eq_true] at h
      rcases h with h | ⟨w, hw, h⟩
      · exact ⟨t, .refl, h⟩
      · obtain ⟨u, hu, hown⟩ := ih w (mem_parts_of_shown hw) h
        exact ⟨u, .head hw hu, hown⟩
  · rintro ⟨u, hu, hown⟩
    induction hu using Relation.ReflTransGen.head_induction_on with
    | refl => rw [hp, hown, Bool.true_or]
    | head hpart _ ih =>
      rw [hp, Bool.or_eq_true, List.any_eq_true]
      exact .inr ⟨_, hpart, ih⟩

/-- The mark is in the name of a type exactly if the type shows a parameter or a marked name. -/
theorem hasGenerics_iff_shows (t : Ty) : t.hasGenerics = true ↔
    ∃ u, t.Shows u ∧ (u.isVar || u.isMarked) = true := by
  apply iff_shows
  intro t
  rw [hasGenerics_eq_any, Bool.or_assoc, isMarked]

/-- A type is open exactly if it shows a parameter or a struct that hides an open field. -/
theorem hasVar_iff_shows (t : Ty) : t.hasVar = true ↔
    ∃ u, t.Shows u ∧ (u.isVar || u.hidesOpen) = true := by
  apply iff_shows
  intro t
  rw [hasVar_eq_any_parts, parts_eq_shown_append_hidden, List.any_append, hidesOpen, Bool.or_assoc,
    Bool.or_comm (t.shownParts.any hasVar)]

theorem hasVar_traits (t : Ty) : t.traits.hasVar = t.hasVar := by
  cases t <;> rfl

/-- The mark in the name and the trait agree on a type exactly if the type shows a parameter, or
shows both or neither of a marked name and a struct that hides an open field. -/
theorem hasGenerics_eq_hasVar_iff (t : Ty) : t.hasGenerics = t.traits.hasVar ↔
    (∃ u, t.Shows u ∧ u.isVar = true) ∨
      ((∃ u, t.Shows u ∧ u.isMarked = true) ↔ ∃ u, t.Shows u ∧ u.hidesOpen = true) := by
  have hname : t.hasGenerics = true ↔ (∃ u, t.Shows u ∧ u.isVar = true) ∨
      ∃ u, t.Shows u ∧ u.isMarked = true := by
    simp only [hasGenerics_iff_shows, Bool.or_eq_true, and_or_left, exists_or]
  have htrait : t.hasVar = true ↔ (∃ u, t.Shows u ∧ u.isVar = true) ∨
      ∃ u, t.Shows u ∧ u.hidesOpen = true := by
    simp only [hasVar_iff_shows, Bool.or_eq_true, and_or_left, exists_or]
  rw [hasVar_traits, Bool.eq_iff_iff, hname, htrait]
  by_cases hvar : ∃ u, t.Shows u ∧ u.isVar = true <;> simp [hvar]

/-- A box without arguments whose one field is a parameter hides it: the trait tells of the
parameter and the name does not. -/
theorem box_hides_parameter :
    let box : Interning Ty := do
      let item ← Intern.var "T"
      Intern.struct "Box" [] [("item", item)]
    (box (.empty 0)).1.hasGenerics = false ∧ (box (.empty 0)).1.traits.hasVar = true := by
  intro box
  have hbox : (box (.empty 0)).1.bare = struct .blank "Box" [] [("item", var .blank "T")] :=
    bare_intern (struct .blank "Box" [] [("item", var ⟨0, 0⟩ "T")]) _
  rw [← hasGenerics_bare, ← traits_bare, hbox, hasGenerics_struct, hasVar_traits, hasVar_struct]
  exact ⟨by decide, by simp⟩

end TypedValues.Ty
