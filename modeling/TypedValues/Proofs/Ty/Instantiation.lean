import TypedValues.Proofs.Ty.Openness
import TypedValues.Proofs.Ty.Parts
import TypedValues.Ty.Substitution

/-!
# Instances of a type

Substitution builds an instance of a type through a table, and leaves out what it need not look
at. The instance itself has nothing to do with tables: it is the type with every occurrence of a
bound parameter replaced (`Ty.instantiate`). Whatever the table, substitution gives that instance,
stamps aside (`Ty.bare_substitute`).
-/

namespace TypedValues.Ty

mutual

/-- The type with every bound parameter replaced by what it is bound to. -/
def instantiate (bindings : Bindings) : Ty → Ty
  | prim p => prim p
  | list s t => list s (instantiate bindings t)
  | map s t u => map s (instantiate bindings t) (instantiate bindings u)
  | maybe s t => maybe s (instantiate bindings t)
  | result s t u => result s (instantiate bindings t) (instantiate bindings u)
  | struct s n args fields =>
    struct s n (instantiateAll bindings args) (instantiateFields bindings fields)
  | enum s n members => enum s n members
  | function s n params ret =>
    function s n (instantiateParams bindings params) (instantiate bindings ret)
  | var s n => (bindings.find? n).getD (var s n)

def instantiateAll (bindings : Bindings) : List Ty → List Ty
  | [] => []
  | t :: ts => instantiate bindings t :: instantiateAll bindings ts

def instantiateFields (bindings : Bindings) : List (String × Ty) → List (String × Ty)
  | [] => []
  | (n, t) :: fs => (n, instantiate bindings t) :: instantiateFields bindings fs

def instantiateParams (bindings : Bindings) : List (Param Ty) → List (Param Ty)
  | [] => []
  | ⟨n, t, m⟩ :: ps => ⟨n, instantiate bindings t, m⟩ :: instantiateParams bindings ps

end

theorem declaredName?_mapParts {f : Ty → Ty} (t : Ty) :
    (t.mapParts f).declaredName? = t.declaredName? := by
  cases t <;> rfl

variable (bindings : Bindings)

theorem instantiateAll_eq_map (ts : List Ty) :
    instantiateAll bindings ts = ts.map (instantiate bindings) := by
  induction ts with
  | nil => rfl
  | cons t rest ih => simp only [instantiateAll, ih, List.map_cons]

theorem instantiateFields_eq_map (fs : List (String × Ty)) :
    instantiateFields bindings fs = fs.map fun f => (f.1, instantiate bindings f.2) := by
  induction fs with
  | nil => rfl
  | cons f rest ih => simp only [instantiateFields, ih, List.map_cons]

theorem instantiateParams_eq_map (ps : List (Param Ty)) :
    instantiateParams bindings ps =
      ps.map fun p => { p with ty := instantiate bindings p.ty } := by
  induction ps with
  | nil => rfl
  | cons p rest ih => simp only [instantiateParams, ih, List.map_cons]

/-- The instance of a type other than a parameter is made of the instances of its parts. -/
theorem instantiate_eq_mapParts {t : Ty} (h : t.isVar = false) :
    t.instantiate bindings = t.mapParts (instantiate bindings) := by
  cases t with
  | var => simp [isVar] at h
  | _ =>
    simp [instantiate, mapParts, instantiateAll_eq_map, instantiateFields_eq_map,
      instantiateParams_eq_map]

/-! ## What is left as it is -/

theorem instantiate_of_closed {t : Ty} (h : t.hasVar = false) : t.instantiate bindings = t := by
  induction t using induction with
  | step t ih =>
    rw [hasVar_eq_any_parts, Bool.or_eq_false_iff, List.any_eq_false] at h
    rw [instantiate_eq_mapParts bindings h.1]
    exact mapParts_eq_self fun u hu => ih u hu (Bool.eq_false_iff.mpr (h.2 u hu))

theorem instantiate_nil (t : Ty) : t.instantiate [] = t := by
  induction t using induction with
  | step t ih =>
    cases hvar : t.isVar with
    | false =>
      rw [instantiate_eq_mapParts [] hvar]
      exact mapParts_eq_self ih
    | true =>
      cases t with
      | var => rfl
      | _ => simp [isVar] at hvar

/-! ## Instances without the mark -/

/-- A parameter is bound, and bound to a type without the mark of a parameter in its name. -/
def BoundUnmarked (bindings : Bindings) : Ty → Prop
  | var _ n => ∃ t, bindings.find? n = some t ∧ t.hasGenerics = false
  | _ => True

theorem hasGenerics_instantiate {t : Ty} (hname : t.Unmarked)
    (hbound : Everywhere parts (BoundUnmarked bindings) t) :
    (t.instantiate bindings).hasGenerics = false := by
  induction t using induction with
  | step t ih =>
    cases hvar : t.isVar with
    | true =>
      cases t with
      | var s n =>
        obtain ⟨u, hu, hmark⟩ := hbound.here
        simpa [instantiate, hu] using hmark
      | _ => simp [isVar] at hvar
    | false =>
      rw [instantiate_eq_mapParts bindings hvar]
      apply hasGenerics_of_parts
      · rw [isVar_mapParts, hvar]
      · rw [declaredName?_mapParts]
        exact hname.here
      · intro u hu
        rw [parts_mapParts] at hu
        obtain ⟨w, hw, rfl⟩ := List.mem_map.mp hu
        exact ih w hw (hname.inside w hw) (hbound.inside w hw)

/-! ## Substitution gives the instance -/

/-- The node that a table gives for a type is that type. -/
theorem bare_intern (t : Ty) (interner : Interner) : (intern t interner).1.bare = t.bare := by
  unfold intern
  split
  · rfl
  · split
    · next node hfind =>
      have heq : (node == t) = true := List.find?_some (p := (· == t)) hfind
      rw [beq_eq_same] at heq
      exact (same_iff_bare node t).mp heq
    · cases t <;> rfl

mutual

/-- Whatever the table, substitution gives the instance of the type. -/
theorem bare_substitute : ∀ (t : Ty) (interner : Interner),
    (substitute bindings t interner).1.bare = (t.instantiate bindings).bare := by
  intro t interner
  rw [substitute.eq_def]
  split
  · -- what substitution does not look at is its own instance
    next h =>
    rcases (Bool.or_eq_true _ _).mp h with h | h
    · rw [instantiate_of_closed bindings (by simpa using h)]
      rfl
    · rw [List.isEmpty_iff.mp h, instantiate_nil]
      rfl
  · cases t with
    | prim | enum | var => rfl
    | list s t =>
      refine (bare_intern (.list .blank (substitute bindings t _).1) _).trans ?_
      simp only [bare, instantiate, bare_substitute t]
    | maybe s t =>
      refine (bare_intern (.maybe .blank (substitute bindings t _).1) _).trans ?_
      simp only [bare, instantiate, bare_substitute t]
    | map s t u =>
      refine (bare_intern
        (.map .blank (substitute bindings t _).1 (substitute bindings u _).1) _).trans ?_
      simp only [bare, instantiate, bare_substitute t, bare_substitute u]
    | result s t u =>
      refine (bare_intern
        (.result .blank (substitute bindings t _).1 (substitute bindings u _).1) _).trans ?_
      simp only [bare, instantiate, bare_substitute t, bare_substitute u]
    | struct s n args fields =>
      refine (bare_intern (.struct .blank n (substituteAll bindings args _).1
        (substituteFields bindings fields _).1) _).trans ?_
      simp only [bare, instantiate, bareAll_substituteAll args, bareFields_substituteFields fields]
    | function s n params ret =>
      refine (bare_intern (.function .blank n (substituteParams bindings params _).1
        (substitute bindings ret _).1) _).trans ?_
      simp only [bare, instantiate, bareParams_substituteParams params, bare_substitute ret]

theorem bareAll_substituteAll : ∀ (ts : List Ty) (interner : Interner),
    bareAll (substituteAll bindings ts interner).1 = bareAll (instantiateAll bindings ts)
  | [], _ => rfl
  | t :: ts, interner => by
    show bareAll (_ :: _) = _
    simp only [bareAll, instantiateAll]
    rw [bare_substitute t, bareAll_substituteAll ts]

theorem bareFields_substituteFields : ∀ (fs : List (String × Ty)) (interner : Interner),
    bareFields (substituteFields bindings fs interner).1 =
      bareFields (instantiateFields bindings fs)
  | [], _ => rfl
  | (n, t) :: fs, interner => by
    show bareFields (_ :: _) = _
    simp only [bareFields, instantiateFields]
    rw [bare_substitute t, bareFields_substituteFields fs]

theorem bareParams_substituteParams : ∀ (ps : List (Param Ty)) (interner : Interner),
    bareParams (substituteParams bindings ps interner).1 =
      bareParams (instantiateParams bindings ps)
  | [], _ => rfl
  | ⟨n, t, m⟩ :: ps, interner => by
    show bareParams (_ :: _) = _
    simp only [bareParams, instantiateParams]
    rw [bare_substitute t, bareParams_substituteParams ps]

end

end TypedValues.Ty
