/-!
# Everywhere in a tree

Types and values are trees whose nodes are of one kind with their parts. A property holds
everywhere in a tree if it holds of the root and everywhere in each part of it.
-/

namespace TypedValues

variable {α : Type} {parts : α → List α} {p q : α → Prop} {a : α}

/-- `p` holds of a node and of every node below it. -/
inductive Everywhere (parts : α → List α) (p : α → Prop) : α → Prop
  | intro {a : α} (here : p a) (inside : ∀ b ∈ parts a, Everywhere parts p b) :
    Everywhere parts p a

namespace Everywhere

theorem here (h : Everywhere parts p a) : p a := by
  cases h with
  | intro here _ => exact here

theorem inside (h : Everywhere parts p a) : ∀ b ∈ parts a, Everywhere parts p b := by
  cases h with
  | intro _ inside => exact inside

theorem of_leaf (ha : parts a = []) (here : p a) : Everywhere parts p a :=
  .intro here fun b hb => by
    rw [ha] at hb
    contradiction

theorem mono (hpq : ∀ b, p b → q b) (h : Everywhere parts p a) : Everywhere parts q a := by
  induction h with
  | intro here _ ih => exact .intro (hpq _ here) ih

end Everywhere

end TypedValues
