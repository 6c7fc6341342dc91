import TypedValues.Proofs.Ty.HashConsing

/-!
# The open parameters of a type

A type is open if a parameter occurs in it, at any depth, and the names of those parameters say of
what it is open (`Ty.hasVar_iff_openNames`). An instance has the names that are not bound, and the
names in the types that the bound ones stand for (`Ty.openNames_instantiate`).
-/

namespace TypedValues.Ty

/-- Induction on the parts, with the parameters apart. -/
theorem induction_on_parts {motive : Ty → Prop} (param : ∀ s n, motive (var s n))
    (node : ∀ t, t.isVar = false → (∀ u ∈ t.parts, motive u) → motive t) (t : Ty) : motive t := by
  induction t using induction with
  | step t ih =>
    cases hvar : t.isVar with
    | true =>
      cases t with
      | var s n => exact param s n
      | _ => contradiction
    | false => exact node t hvar ih

def openNames (t : Ty) : Set String := {n | ∃ s, t.Within (var s n)}

variable {t : Ty} {n : String}

theorem openNames_var (s : Stamp) (n : String) : (var s n).openNames = {n} := by
  ext m
  constructor
  · rintro ⟨s', hs⟩
    rcases within_iff.mp hs with heq | ⟨w, hw, -⟩
    · cases heq
      rfl
    · contradiction
  · rintro rfl
    exact ⟨s, .refl⟩

/-- In a type that is no parameter itself, those of its parts occur. -/
theorem mem_openNames_of_isVar_eq_false (h : t.isVar = false) :
    n ∈ t.openNames ↔ ∃ u ∈ t.parts, n ∈ u.openNames := by
  constructor
  · rintro ⟨s, hs⟩
    rcases within_iff.mp hs with rfl | ⟨w, hw, hws⟩
    · contradiction
    · exact ⟨w, hw, s, hws⟩
  · rintro ⟨w, hw, s, hws⟩
    exact ⟨s, within_iff.mpr (.inr ⟨w, hw, hws⟩)⟩

theorem mem_openNames_of_part {u : Ty} (hu : u ∈ t.parts) (hn : n ∈ u.openNames) :
    n ∈ t.openNames :=
  (mem_openNames_of_isVar_eq_false (isVar_of_mem_parts hu)).mpr ⟨u, hu, hn⟩

/-- A type is open exactly if a parameter occurs in it. -/
theorem hasVar_iff_openNames (t : Ty) : t.hasVar = true ↔ t.openNames.Nonempty := by
  induction t using induction_on_parts with
  | param s n => simp [openNames_var]
  | node t hvar ih =>
    rw [hasVar_eq_any_parts, hvar, Bool.false_or, List.any_eq_true]
    constructor
    · rintro ⟨u, hu, hopen⟩
      obtain ⟨n, hn⟩ := (ih u hu).mp hopen
      exact ⟨n, mem_openNames_of_part hu hn⟩
    · rintro ⟨n, hn⟩
      obtain ⟨u, hu, hn⟩ := (mem_openNames_of_isVar_eq_false hvar).mp hn
      exact ⟨u, hu, (ih u hu).mpr ⟨n, hn⟩⟩

theorem parts_restamp (s : Stamp) (t : Ty) : (t.restamp s).parts = t.parts := by
  cases t <;> rfl

theorem mem_openNames_mapParts {f : Ty → Ty} (h : t.isVar = false) :
    n ∈ (t.mapParts f).openNames ↔ ∃ u ∈ t.parts, n ∈ (f u).openNames := by
  rw [mem_openNames_of_isVar_eq_false (isVar_mapParts t ▸ h), parts_mapParts]
  simp

theorem openNames_bare (t : Ty) : t.bare.openNames = t.openNames := by
  induction t using induction_on_parts with
  | param s n => rw [bare, openNames_var, openNames_var]
  | node t hvar ih =>
    ext n
    have hbare : t.bare.isVar = false := isVar_bare t ▸ hvar
    rw [mem_openNames_of_isVar_eq_false hbare, bare_eq_mapParts, parts_restamp, parts_mapParts,
      mem_openNames_of_isVar_eq_false hvar]
    constructor
    · rintro ⟨w, hw, hn⟩
      obtain ⟨u, hu, rfl⟩ := List.mem_map.mp hw
      exact ⟨u, hu, ih u hu ▸ hn⟩
    · rintro ⟨u, hu, hn⟩
      exact ⟨u.bare, List.mem_map_of_mem hu, (ih u hu).symm ▸ hn⟩

theorem openNames_congr {u : Ty} (h : t.bare = u.bare) : t.openNames = u.openNames := by
  rw [← openNames_bare, h, openNames_bare]

/-! ## Names after instantiation -/

/-- The names that are not bound, and those in what the bound ones are bound to. -/
def namesAfter (bindings : Bindings) (names : Set String) : Set String :=
  {n | n ∈ names ∧ bindings.find? n = none} ∪
    {n | ∃ x ∈ names, ∃ u, bindings.find? x = some u ∧ n ∈ u.openNames}

variable {bindings : Bindings} {names : Set String}

theorem mem_namesAfter : n ∈ namesAfter bindings names ↔
    (n ∈ names ∧ bindings.find? n = none) ∨
      ∃ x ∈ names, ∃ u, bindings.find? x = some u ∧ n ∈ u.openNames := .rfl

/-- A name after instantiation comes from one name before it. -/
theorem mem_namesAfter_iff :
    n ∈ namesAfter bindings names ↔ ∃ x ∈ names, n ∈ namesAfter bindings {x} := by
  simp only [mem_namesAfter, Set.mem_singleton_iff, exists_eq_left]
  constructor
  · rintro (⟨hn, hfree⟩ | ⟨x, hx, u, hu, hn⟩)
    · exact ⟨n, hn, .inl ⟨rfl, hfree⟩⟩
    · exact ⟨x, hx, .inr ⟨u, hu, hn⟩⟩
  · rintro ⟨x, hx, ⟨rfl, hfree⟩ | ⟨u, hu, hn⟩⟩
    · exact .inl ⟨hx, hfree⟩
    · exact .inr ⟨x, hx, u, hu, hn⟩

theorem openNames_instantiate_var (s : Stamp) (n : String) :
    ((var s n).instantiate bindings).openNames = namesAfter bindings {n} := by
  ext m
  simp only [mem_namesAfter, Set.mem_singleton_iff, exists_eq_left]
  rw [instantiate]
  cases hn : bindings.find? n with
  | none =>
    rw [Option.getD_none, openNames_var, Set.mem_singleton_iff]
    simp +contextual [hn]
  | some u =>
    rw [Option.getD_some]
    simp +contextual [hn]

/-- By induction on the type: a name of the instance comes from one parameter in the type. -/
theorem openNames_instantiate (bindings : Bindings) (t : Ty) :
    (t.instantiate bindings).openNames = namesAfter bindings t.openNames := by
  induction t using induction_on_parts with
  | param s n => rw [openNames_instantiate_var, openNames_var]
  | node t hvar ih =>
    ext n
    rw [instantiate_eq_mapParts bindings hvar, mem_openNames_mapParts hvar, mem_namesAfter_iff]
    constructor
    · rintro ⟨u, hu, hn⟩
      rw [ih u hu, mem_namesAfter_iff] at hn
      obtain ⟨x, hx, hn⟩ := hn
      exact ⟨x, mem_openNames_of_part hu hx, hn⟩
    · rintro ⟨x, hx, hn⟩
      obtain ⟨u, hu, hx⟩ := (mem_openNames_of_isVar_eq_false hvar).mp hx
      refine ⟨u, hu, ?_⟩
      rw [ih u hu, mem_namesAfter_iff]
      exact ⟨x, hx, hn⟩

end TypedValues.Ty
