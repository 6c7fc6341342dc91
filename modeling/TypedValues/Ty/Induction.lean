import TypedValues.Ty.Basic

/-!
# Induction over types

A type is built from its parts: elements, keys and values, arms, arguments and fields of a
struct, and the types of the parameters and the return type of a function. What holds of a type
whenever it holds of its parts holds of every type (`Ty.induction`).
-/

namespace TypedValues.Ty

/-- The types that a type is built from directly. -/
def parts : Ty → List Ty
  | prim _ | enum _ _ _ | var _ _ => []
  | list _ t | maybe _ t => [t]
  | map _ t u | result _ t u => [t, u]
  | struct _ _ args fields => args ++ fields.map Prod.snd
  | function _ _ params ret => params.map Param.ty ++ [ret]

theorem sizeOf_lt_of_mem_parts {t u : Ty} (h : u ∈ t.parts) : sizeOf u < sizeOf t := by
  cases t with
  | prim | enum | var => contradiction
  | list | maybe =>
    obtain rfl := List.mem_singleton.mp h
    simp only [list.sizeOf_spec, maybe.sizeOf_spec]
    omega
  | map | result =>
    simp only [map.sizeOf_spec, result.sizeOf_spec]
    obtain rfl | hlast := List.mem_cons.mp h
    · omega
    · obtain rfl := List.mem_singleton.mp hlast
      omega
  | struct _ _ args fields =>
    rw [struct.sizeOf_spec]
    obtain harg | hfield := List.mem_append.mp h
    · have := List.sizeOf_lt_of_mem harg
      omega
    · obtain ⟨f, hf, rfl⟩ := List.mem_map.mp hfield
      have := sizeOf_snd_lt_of_mem hf
      omega
  | function _ _ params ret =>
    rw [function.sizeOf_spec]
    obtain hparam | hret := List.mem_append.mp h
    · obtain ⟨p, hp, rfl⟩ := List.mem_map.mp hparam
      have := Param.sizeOf_ty_lt_of_mem hp
      omega
    · obtain rfl := List.mem_singleton.mp hret
      omega

/-- What holds of a type whenever it holds of its parts holds of every type. -/
theorem induction {motive : Ty → Prop} (step : ∀ t, (∀ u ∈ t.parts, motive u) → motive t)
    (t : Ty) : motive t :=
  step t fun u _ => induction step u
termination_by sizeOf t
decreasing_by exact sizeOf_lt_of_mem_parts ‹_›

/-- A variable has an open parameter, and so has what has one in a part; nothing else has one. -/
theorem hasVar_eq_any_parts (t : Ty) : t.hasVar = (t.isVar || t.parts.any hasVar) := by
  cases t <;> simp [isVar, parts, Function.comp_def]

end TypedValues.Ty
