import TypedValues.Ty.Induction

/-!
# Types without stamps

A bare type is a type all of whose stamps are forgotten. Two types are equal, stamps aside,
exactly if they have one bare type (`same_iff_bare`), so that equality of types is an
equivalence; and the name of a type is that of its bare type, so that equal types have one name.
-/

namespace TypedValues.Ty

mutual

/-- The type with all stamps forgotten. -/
def bare : Ty → Ty
  | prim p => prim p
  | list _ t => list .blank (bare t)
  | map _ t u => map .blank (bare t) (bare u)
  | maybe _ t => maybe .blank (bare t)
  | result _ t u => result .blank (bare t) (bare u)
  | struct _ n args fields => struct .blank n (bareAll args) (bareFields fields)
  | enum _ n members => enum .blank n members
  | function _ n params ret => function .blank n (bareParams params) (bare ret)
  | var _ n => var .blank n

def bareAll : List Ty → List Ty
  | [] => []
  | t :: ts => bare t :: bareAll ts

def bareFields : List (String × Ty) → List (String × Ty)
  | [] => []
  | (n, t) :: fs => (n, bare t) :: bareFields fs

def bareParams : List (Param Ty) → List (Param Ty)
  | [] => []
  | ⟨n, t, m⟩ :: ps => ⟨n, bare t, m⟩ :: bareParams ps

end

mutual

/-- Two types are equal, stamps aside, exactly if they have one bare type. -/
theorem same_iff_bare : ∀ t u : Ty, same t u = true ↔ bare t = bare u
  | prim p, u => by cases u <;> simp [same, bare]
  | list _ t, u => by cases u <;> simp [same, bare, same_iff_bare t]
  | map _ t t', u => by cases u <;> simp [same, bare, same_iff_bare t, same_iff_bare t']
  | maybe _ t, u => by cases u <;> simp [same, bare, same_iff_bare t]
  | result _ t t', u => by cases u <;> simp [same, bare, same_iff_bare t, same_iff_bare t']
  | struct _ n args fields, u => by
    cases u <;>
      simp [same, bare, sameAll_iff_bare args, sameFields_iff_bare fields, and_assoc]
  | enum _ n members, u => by cases u <;> simp [same, bare]
  | function _ n params ret, u => by
    cases u <;> simp [same, bare, sameParams_iff_bare params, same_iff_bare ret, and_assoc]
  | var _ n, u => by cases u <;> simp [same, bare]

theorem sameAll_iff_bare : ∀ ts us : List Ty, sameAll ts us = true ↔ bareAll ts = bareAll us
  | [], us => by cases us <;> simp [sameAll, bareAll]
  | t :: ts, us => by
    cases us <;> simp [sameAll, bareAll, same_iff_bare t, sameAll_iff_bare ts]

theorem sameFields_iff_bare :
    ∀ fs gs : List (String × Ty), sameFields fs gs = true ↔ bareFields fs = bareFields gs
  | [], gs => by cases gs <;> simp [sameFields, bareFields]
  | (n, t) :: fs, gs => by
    cases gs with
    | nil => simp [sameFields, bareFields]
    | cons g gs =>
      obtain ⟨m, u⟩ := g
      simp [sameFields, bareFields, same_iff_bare t, sameFields_iff_bare fs, and_assoc]

theorem sameParams_iff_bare :
    ∀ ps qs : List (Param Ty), sameParams ps qs = true ↔ bareParams ps = bareParams qs
  | [], qs => by cases qs <;> simp [sameParams, bareParams]
  | ⟨n, t, m⟩ :: ps, qs => by
    cases qs with
    | nil => simp [sameParams, bareParams]
    | cons q qs =>
      obtain ⟨k, u, l⟩ := q
      simp only [sameParams, bareParams, same_iff_bare t, sameParams_iff_bare ps,
        Bool.and_eq_true, beq_iff_eq, List.cons.injEq, Param.mk.injEq]
      constructor
      · rintro ⟨⟨⟨h₁, h₂⟩, h₃⟩, h₄⟩
        exact ⟨⟨h₁, h₃, h₂⟩, h₄⟩
      · rintro ⟨⟨h₁, h₃, h₂⟩, h₄⟩
        exact ⟨⟨⟨h₁, h₂⟩, h₃⟩, h₄⟩

end

theorem same_refl (t : Ty) : same t t = true := (same_iff_bare t t).mpr rfl

/-! ## What the bare type tells -/

theorem bareAll_eq_map (ts : List Ty) : bareAll ts = ts.map bare := by
  induction ts with
  | nil => rfl
  | cons t rest ih => simp only [bareAll, ih, List.map_cons]

theorem bareFields_eq_map (fs : List (String × Ty)) :
    bareFields fs = fs.map fun f => (f.1, bare f.2) := by
  induction fs with
  | nil => rfl
  | cons f rest ih => simp only [bareFields, ih, List.map_cons]

theorem bareParams_eq_map (ps : List (Param Ty)) :
    bareParams ps = ps.map fun p => { p with ty := bare p.ty } := by
  induction ps with
  | nil => rfl
  | cons p rest ih => simp only [bareParams, ih, List.map_cons]

/-- What a function that returns the type shows of it is that of the bare type, if the name is. -/
theorem returnName?_bare {t : Ty} (h : (bare t).name = t.name) :
    (bare t).returnName? = t.returnName? := by
  cases t with
  | prim => rfl
  | _ => exact congrArg some h

theorem name_bare (t : Ty) : (bare t).name = t.name := by
  induction t using induction with
  | step t ih =>
    cases t with
    | prim | enum | var => simp [bare]
    | list | maybe | map | result => simp_all [bare, parts]
    | struct _ n args fields =>
      have h : args.map (name ∘ bare) = args.map name :=
        List.map_congr_left fun u hu => ih u (by simp [parts, hu])
      simp [bare, bareAll_eq_map, h]
    | function _ n params ret =>
      have h : (params.map fun p => (bare p.ty).name) = params.map fun p => p.ty.name :=
        List.map_congr_left fun p hp => ih p.ty (by simp [parts]; exact .inl ⟨p, hp, rfl⟩)
      have hret := returnName?_bare (ih ret (by simp [parts]))
      simp [bare, bareParams_eq_map, hret, Function.comp_def, h]

/-- Equal types have one name. -/
theorem name_eq_of_same {t u : Ty} (h : same t u = true) : t.name = u.name := by
  rw [← name_bare t, (same_iff_bare t u).mp h, name_bare u]

end TypedValues.Ty
