import TypedValues.Proofs.Everywhere
import TypedValues.Kind
import TypedValues.Ty.Bare

/-!
# The parts of a type

Rewriting the parts of a type one by one keeps its outermost form. What is said here of that form
holds of every operation that goes through a type part by part.
-/

namespace TypedValues.Ty

def mapParts (f : Ty → Ty) : Ty → Ty
  | prim p => prim p
  | list s t => list s (f t)
  | map s t u => map s (f t) (f u)
  | maybe s t => maybe s (f t)
  | result s t u => result s (f t) (f u)
  | struct s n args fields => struct s n (args.map f) (fields.map fun x => (x.1, f x.2))
  | enum s n members => enum s n members
  | function s n params ret => function s n (params.map fun p => { p with ty := f p.ty }) (f ret)
  | var s n => var s n

variable {f g : Ty → Ty}

theorem mapParts_congr {t : Ty} (h : ∀ u ∈ t.parts, f u = g u) : t.mapParts f = t.mapParts g := by
  cases t with
  | prim | enum | var => rfl
  | list | maybe | map | result => simp_all [mapParts, parts]
  | struct s n args fields =>
    have hargs : args.map f = args.map g :=
      List.map_congr_left fun u hu => h u (by simp [parts, hu])
    have hfields : (fields.map fun x => (x.1, f x.2)) = fields.map fun x => (x.1, g x.2) :=
      List.map_congr_left fun x hx => by
        rw [h x.2 (List.mem_append_right _ (List.mem_map_of_mem hx))]
    rw [mapParts, mapParts, hargs, hfields]
  | function s n params ret =>
    have hparams : (params.map fun p => { p with ty := f p.ty }) =
        params.map fun p => { p with ty := g p.ty } :=
      List.map_congr_left fun p hp => by
        rw [h p.ty (List.mem_append_left _ (List.mem_map_of_mem hp))]
    rw [mapParts, mapParts, hparams, h ret (by simp [parts])]

theorem mapParts_id (t : Ty) : t.mapParts (fun u => u) = t := by
  cases t <;> simp [mapParts]

theorem mapParts_eq_self {t : Ty} (h : ∀ u ∈ t.parts, f u = u) : t.mapParts f = t :=
  (mapParts_congr h).trans t.mapParts_id

theorem mapParts_mapParts (t : Ty) : (t.mapParts f).mapParts g = t.mapParts fun u => g (f u) := by
  cases t <;> simp [mapParts, Function.comp_def]

theorem parts_mapParts (t : Ty) : (t.mapParts f).parts = t.parts.map f := by
  cases t <;> simp [mapParts, parts, Function.comp_def]

theorem bare_eq_mapParts (t : Ty) : t.bare = (t.mapParts bare).restamp .blank := by
  cases t <;> simp [bare, mapParts, restamp, bareAll_eq_map, bareFields_eq_map, bareParams_eq_map]

theorem mapParts_restamp {f : Ty → Ty} (s : Stamp) (t : Ty) :
    (t.restamp s).mapParts f = (t.mapParts f).restamp s := by
  cases t <;> rfl

theorem restamp_restamp (s s' : Stamp) (t : Ty) : (t.restamp s).restamp s' = t.restamp s' := by
  cases t <;> rfl

theorem bare_restamp (s : Stamp) (t : Ty) : (t.restamp s).bare = t.bare := by
  rw [bare_eq_mapParts, mapParts_restamp, restamp_restamp, ← bare_eq_mapParts]

theorem hasVar_restamp (s : Stamp) (t : Ty) : (t.restamp s).hasVar = t.hasVar := by
  cases t <;> simp [restamp]

/-- The bare type of a type with rewritten parts depends on the bare types of those only. -/
theorem bare_mapParts_congr {t : Ty} (h : ∀ u ∈ t.parts, (f u).bare = (g u).bare) :
    (t.mapParts f).bare = (t.mapParts g).bare := by
  rw [bare_eq_mapParts, bare_eq_mapParts (t.mapParts g), mapParts_mapParts, mapParts_mapParts,
    mapParts_congr h]

/-! ## The outermost form -/

theorem isVar_mapParts (t : Ty) : (t.mapParts f).isVar = t.isVar := by
  cases t <;> rfl

theorem arm?_mapParts (t : Ty) (branch : Branch) :
    (t.mapParts f).arm? branch = (t.arm? branch).map f := by
  cases t <;> cases branch <;> rfl

/-! ## What types with one bare type share -/

theorem isVar_bare (t : Ty) : t.bare.isVar = t.isVar := by
  cases t <;> rfl

theorem isMaybe_bare (t : Ty) : t.bare.isMaybe = t.isMaybe := by
  cases t <;> rfl

theorem isResult_bare (t : Ty) : t.bare.isResult = t.isResult := by
  cases t <;> rfl

theorem arm?_bare (t : Ty) (branch : Branch) : t.bare.arm? branch = (t.arm? branch).map bare := by
  cases t <;> cases branch <;> rfl

theorem inner?_bare (t : Ty) : t.bare.inner? = t.inner?.map bare := by
  cases t <;> rfl

theorem hasGenerics_bare (t : Ty) : t.bare.hasGenerics = t.hasGenerics := by
  rw [hasGenerics, hasGenerics, name_bare]

theorem hasVar_bare (t : Ty) : t.bare.hasVar = t.hasVar := by
  induction t using induction with
  | step t ih =>
    have hparts : (t.parts.map bare).any hasVar = t.parts.any hasVar := by
      rw [List.any_map, Bool.eq_iff_iff, List.any_eq_true, List.any_eq_true]
      exact exists_congr fun u => and_congr_right fun hu => by rw [Function.comp_apply, ih u hu]
    rw [bare_eq_mapParts, hasVar_restamp, hasVar_eq_any_parts, isVar_mapParts, parts_mapParts,
      hparts, ← hasVar_eq_any_parts]

theorem kind_bare (t : Ty) : Kind.ofTy t.bare = Kind.ofTy t := by
  cases t <;> rfl

variable {t u : Ty}

theorem isVar_congr (h : t.bare = u.bare) : t.isVar = u.isVar := by
  rw [← isVar_bare, h, isVar_bare]

theorem isMaybe_congr (h : t.bare = u.bare) : t.isMaybe = u.isMaybe := by
  rw [← isMaybe_bare, h, isMaybe_bare]

theorem isResult_congr (h : t.bare = u.bare) : t.isResult = u.isResult := by
  rw [← isResult_bare, h, isResult_bare]

theorem hasGenerics_congr (h : t.bare = u.bare) : t.hasGenerics = u.hasGenerics := by
  rw [← hasGenerics_bare, h, hasGenerics_bare]

theorem hasVar_congr (h : t.bare = u.bare) : t.hasVar = u.hasVar := by
  rw [← hasVar_bare, h, hasVar_bare]

/-- Parts that are alike, stamps aside, are both there or both not. -/
theorem exists_of_map_bare {o o' : Option Ty} (h : o.map bare = o'.map bare) (ho : o = some t) :
    ∃ u, o' = some u ∧ t.bare = u.bare := by
  rw [ho, Option.map_some] at h
  obtain ⟨u, hu, heq⟩ := Option.map_eq_some_iff.mp h.symm
  exact ⟨u, hu, heq.symm⟩

theorem arm?_congr {branch : Branch} {arm : Ty} (h : t.bare = u.bare)
    (harm : t.arm? branch = some arm) : ∃ arm', u.arm? branch = some arm' ∧ arm.bare = arm'.bare := by
  have hmap : (t.arm? branch).map bare = (u.arm? branch).map bare := by
    rw [← arm?_bare, h, arm?_bare]
  exact exists_of_map_bare hmap harm

theorem inner?_congr {inner : Ty} (h : t.bare = u.bare) (hinner : t.inner? = some inner) :
    ∃ inner', u.inner? = some inner' ∧ inner.bare = inner'.bare := by
  have hmap : t.inner?.map bare = u.inner?.map bare := by rw [← inner?_bare, h, inner?_bare]
  exact exists_of_map_bare hmap hinner

theorem isMaybe_of_inner? {inner : Ty} (h : t.inner? = some inner) : t.isMaybe = true := by
  cases t with
  | maybe => rfl
  | _ => contradiction

theorem isVar_of_mem_parts (h : u ∈ t.parts) : t.isVar = false := by
  cases t with
  | var => contradiction
  | _ => rfl

theorem mem_parts_of_arm? {branch : Branch} {arm : Ty} (h : t.arm? branch = some arm) :
    arm ∈ t.parts := by
  cases t <;> cases branch <;> simp_all [arm?, parts]

theorem isResult_of_arm? {branch : Branch} {arm : Ty} (h : t.arm? branch = some arm) :
    t.isResult = true := by
  cases t <;> cases branch <;> simp_all [arm?, isResult]

theorem isResult_of_arm?_eq_none {branch : Branch} (h : t.arm? branch = none) :
    t.isResult = false := by
  cases t <;> cases branch <;> simp_all [arm?, isResult]

/-- No result is an arm of itself. -/
theorem bare_ne_of_arm? {branch : Branch} {arm : Ty} (h : t.arm? branch = some arm) :
    arm.bare ≠ t.bare := by
  intro heq
  have hself : t.bare.arm? branch = some t.bare := by rw [arm?_bare, h, Option.map_some, heq]
  cases hbare : t.bare <;> rw [hbare] at hself <;> cases branch <;> cases hself

end TypedValues.Ty
