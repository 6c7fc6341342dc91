import TypedValues.Proofs.Everywhere
import TypedValues.Ty.Induction

/-!
# Openness of a type and the mark in its name

Refinement asks for open parameters by looking for the mark of a parameter in the rendered name.
A type is legible if that look tells the truth: no declaration in it has the mark in its own
name, and a struct with an open field has an open argument, since the name of a struct shows its
arguments and hides its fields. The name of a legible type has the mark exactly if the type has
an open parameter (`Ty.hasGenerics_eq_hasVar`).
-/

namespace TypedValues

/-! ## The mark in the parts of a name -/

namespace TypeName

theorem isGeneric_append (a b : String) : isGeneric (a ++ b) = (isGeneric a || isGeneric b) := by
  simp [isGeneric, String.toList_append]

@[simp]
theorem isGeneric_list (elem : String) : isGeneric (list elem) = isGeneric elem := by
  simp [list, isGeneric_append, show isGeneric "[" = false by decide,
    show isGeneric "]" = false by decide]

@[simp]
theorem isGeneric_map (key value : String) :
    isGeneric (map key value) = (isGeneric key || isGeneric value) := by
  simp [map, isGeneric_append, show isGeneric "[" = false by decide,
    show isGeneric "]" = false by decide, show isGeneric ":" = false by decide]

@[simp]
theorem isGeneric_maybe (inner : String) : isGeneric (maybe inner) = isGeneric inner := by
  simp [maybe, isGeneric_append, show isGeneric "?" = false by decide]

@[simp]
theorem isGeneric_result (ok err : String) :
    isGeneric (result ok err) = (isGeneric ok || isGeneric err) := by
  simp [result, isGeneric_append, show isGeneric "!" = false by decide]

theorem isGeneric_commaSeparated (names : List String) :
    isGeneric (commaSeparated names) = names.any isGeneric := by
  fun_induction commaSeparated names with
  | case1 => decide
  | case2 name => simp
  | case3 name rest hrest ih =>
    simp [isGeneric_append, ih, show isGeneric ", " = false by decide]

theorem isGeneric_arguments (names : List String) :
    isGeneric (arguments names) = names.any isGeneric := by
  cases names with
  | nil => decide
  | cons name rest =>
    simp [arguments, isGeneric_append, isGeneric_commaSeparated,
      show isGeneric "<" = false by decide, show isGeneric ">" = false by decide]

@[simp]
theorem isGeneric_struct (name : String) (args : List String) :
    isGeneric (struct name args) = (isGeneric name || args.any isGeneric) := by
  simp [struct, isGeneric_append, isGeneric_arguments]

theorem isGeneric_afterBlank (name : Option String) :
    isGeneric (afterBlank name) = name.any isGeneric := by
  cases name with
  | none => decide
  | some name => simp [afterBlank, isGeneric_append, show isGeneric " " = false by decide]

@[simp]
theorem isGeneric_function (name : Option String) (params : List String) (ret : Option String) :
    isGeneric (function name params ret) =
      (name.any isGeneric || (params.any isGeneric || ret.any isGeneric)) := by
  simp [function, isGeneric_append, isGeneric_afterBlank, isGeneric_commaSeparated,
    show isGeneric "fn" = false by decide, show isGeneric "(" = false by decide,
    show isGeneric ")" = false by decide, Bool.or_assoc]

@[simp]
theorem isGeneric_var (name : String) : isGeneric (var name) = true := by
  simp [var, isGeneric, String.toList_append]

end TypeName

theorem any_congr_of_mem {α : Type} {p q : α → Bool} {l : List α} (h : ∀ a ∈ l, p a = q a) :
    l.any p = l.any q := by
  induction l with
  | nil => rfl
  | cons a rest ih =>
    rw [List.any_cons, List.any_cons, h a (by simp), ih fun b hb => h b (by simp [hb])]

namespace Ty

/-! ## Legible types -/

/-- The name that a struct, an enum or a function was declared with. -/
def declaredName? : Ty → Option String
  | struct _ n _ _ => some n
  | enum _ n _ => some n
  | function _ n _ _ => n
  | _ => none

/-- No declaration in the type has the mark of an open parameter in its name. -/
def Unmarked : Ty → Prop :=
  Everywhere parts fun t => t.declaredName?.any TypeName.isGeneric = false

/-- A struct with an open field has an open argument. -/
def ShowsFields : Ty → Prop
  | struct _ _ args fields => (fields.any fun f => f.2.hasVar) = true → args.any hasVar = true
  | _ => True

/-- The mark in the name tells whether the type is open, for the type and all that is in it. -/
structure Legible (t : Ty) : Prop where
  unmarked : t.Unmarked
  showsFields : Everywhere parts ShowsFields t

theorem Legible.part {t u : Ty} (h : t.Legible) (hu : u ∈ t.parts) : u.Legible :=
  ⟨h.unmarked.inside u hu, h.showsFields.inside u hu⟩

theorem hasGenerics_prim (p : Primitive) : (prim p).hasGenerics = false := by
  rw [hasGenerics, name_prim]
  cases p <;> decide

theorem hasGenerics_list (s : Stamp) (t : Ty) : (list s t).hasGenerics = t.hasGenerics := by
  simp [hasGenerics]

theorem hasGenerics_maybe (s : Stamp) (t : Ty) : (maybe s t).hasGenerics = t.hasGenerics := by
  simp [hasGenerics]

theorem hasGenerics_result (s : Stamp) (t e : Ty) :
    (result s t e).hasGenerics = (t.hasGenerics || e.hasGenerics) := by
  simp [hasGenerics]

theorem hasGenerics_var (s : Stamp) (n : String) : (var s n).hasGenerics = true := by
  simp [hasGenerics]

theorem hasGenerics_of_arm? {t arm : Ty} {branch : Branch} (h : t.arm? branch = some arm)
    (harm : arm.hasGenerics = true) : t.hasGenerics = true := by
  cases t <;> cases branch <;> simp_all [arm?, hasGenerics]

/-- The mark is in the name of a struct if it is in its own name or in that of an argument; the
fields do not show. -/
theorem hasGenerics_struct (s : Stamp) (n : String) (args : List Ty)
    (fields : List (String × Ty)) :
    (struct s n args fields).hasGenerics = (TypeName.isGeneric n || args.any hasGenerics) := by
  simp only [hasGenerics, name_struct, TypeName.isGeneric_struct, List.any_map]
  rfl

theorem any_returnName? (t : Ty) : t.returnName?.any TypeName.isGeneric = t.hasGenerics := by
  cases t with
  | prim p => rw [hasGenerics_prim]; cases p <;> simp [returnName?] <;> decide
  | _ => rfl

theorem hasGenerics_function (s : Stamp) (n : Option String) (params : List (Param Ty)) (ret : Ty) :
    (function s n params ret).hasGenerics =
      (n.any TypeName.isGeneric || ((params.any fun p => p.ty.hasGenerics) || ret.hasGenerics)) := by
  rw [← any_returnName? ret]
  simp [hasGenerics, Function.comp_def]

/-- The parts of a type whose names show in its own: all but the fields of a struct. -/
def shownParts : Ty → List Ty
  | struct _ _ args _ => args
  | t => t.parts

theorem mem_parts_of_shown {t u : Ty} (h : u ∈ t.shownParts) : u ∈ t.parts := by
  cases t with
  | struct => exact List.mem_append_left _ h
  | _ => exact h

/-- The mark is in the name of a parameter, of a declaration that has it in its own name, and of a
type that shows a part with the mark. -/
theorem hasGenerics_eq_any (t : Ty) : t.hasGenerics =
    (t.isVar || (t.declaredName?.any TypeName.isGeneric || t.shownParts.any hasGenerics)) := by
  cases t with
  | prim p => exact hasGenerics_prim p
  | struct s n args fields => exact hasGenerics_struct s n args fields
  | function s n params ret =>
    have hparts : (function s n params ret).shownParts = params.map Param.ty ++ [ret] := rfl
    rw [hasGenerics_function, hparts, List.any_append, List.any_map]
    simp [isVar, declaredName?, Function.comp_def]
  | _ => simp [hasGenerics, isVar, declaredName?, shownParts, parts]

/-- The mark is not in the name of a type other than a parameter if it is neither in the declared
name nor in the name of a part. -/
theorem hasGenerics_of_parts {t : Ty} (hvar : t.isVar = false)
    (hname : t.declaredName?.any TypeName.isGeneric = false)
    (hparts : ∀ u ∈ t.parts, u.hasGenerics = false) : t.hasGenerics = false := by
  have hshown : t.shownParts.any hasGenerics = false := by
    rw [List.any_eq_false]
    intro u hu
    exact Bool.eq_false_iff.mp (hparts u (mem_parts_of_shown hu))
  rw [hasGenerics_eq_any, hvar, hname, hshown]
  rfl

/-- A struct that shows its open fields in its arguments has an open part if it shows one. -/
theorem ShowsFields.any_shownParts {t : Ty} (h : t.ShowsFields) :
    t.shownParts.any hasVar = t.parts.any hasVar := by
  cases t with
  | struct s n args fields =>
    have hfields : (fields.any fun f => f.2.hasVar) = true → args.any hasVar = true := h
    rw [shownParts, parts, List.any_append, List.any_map]
    cases hargs : args.any hasVar with
    | true => rfl
    | false =>
      rw [hargs] at hfields
      exact (Bool.eq_false_iff.mpr fun hf => Bool.noConfusion (hfields hf)).symm
  | _ => rfl

/-- The name of a legible type has the mark exactly if the type is open. -/
theorem hasGenerics_eq_hasVar {t : Ty} (h : t.Legible) : t.hasGenerics = t.hasVar := by
  induction t using induction with
  | step t ih =>
    have hshown : t.shownParts.any hasGenerics = t.shownParts.any hasVar := by
      apply any_congr_of_mem
      intro u hu
      exact ih u (mem_parts_of_shown hu) (h.part (mem_parts_of_shown hu))
    rw [hasGenerics_eq_any, hasVar_eq_any_parts, h.unmarked.here, Bool.false_or, hshown,
      h.showsFields.here.any_shownParts]

end Ty

end TypedValues
