import TypedValues.Proofs.Dict
import TypedValues.Proofs.Ty.OpenNames

/-!
# What a substitution leaves alone

A substitution builds an open type anew, parts first, and asks the table for the node of what it
has built (`Ty.substitute_eq_mapPartsM`). It gives the instance of the type, and if nothing in the
type is bound and the table holds all of it, the node that it was given
(`Ty.substitute_same_instantiate`).
-/

namespace TypedValues

/-! ## Nodes that a table holds -/

namespace Interner

/-- The node is in the table, unless it is primitive. -/
def Holds (interner : Interner) (t : Ty) : Prop := interner.NodeOf t t

variable {interner before : Interner} {t node : Ty} {added : Set Ty}

theorem holds_iff : interner.Holds t ↔ t.isPrimitive = true ∨ t ∈ interner.entries := by
  constructor
  · intro h
    exact h.cases.imp And.left And.right
  · intro h
    refine ⟨rfl, ?_⟩
    cases hprim : t.isPrimitive with
    | true => exact .inl ⟨rfl, rfl⟩
    | false =>
      rw [hprim] at h
      exact .inr ⟨rfl, h.resolve_left Bool.false_ne_true⟩

/-- What a table gives for a type, it holds. -/
theorem NodeOf.holds (h : interner.NodeOf t node) : interner.Holds node := by
  rw [holds_iff]
  obtain ⟨hprim, rfl⟩ | ⟨-, hmem⟩ := h.cases
  · exact .inl hprim
  · exact .inr hmem

theorem Holds.mono (h : before.Holds t) (hgrows : before.Grows added interner) :
    interner.Holds t :=
  NodeOf.mono h hgrows

/-- Of a type that it has, a table gives its node, and nothing is added. -/
theorem Consed.intern_eq (h : interner.Consed) (hnode : node ∈ interner.entries)
    (hbare : t.bare = node.bare) : intern t interner = (node, interner) := by
  have hprim : t.isPrimitive = false := by
    rw [← Ty.isPrimitive_bare, hbare, Ty.isPrimitive_bare]
    exact h.isPrimitive_eq_false hnode
  unfold intern
  rw [if_neg (Bool.eq_false_iff.mp hprim)]
  cases hfind : interner.find? t with
  | none =>
    have hmem : t.bare ∈ interner.types := hbare ▸ List.mem_map_of_mem hnode
    exact absurd hmem (not_mem_types_of_find? hfind)
  | some u =>
    obtain ⟨hu, hubare⟩ := mem_entries_of_find? hfind
    have heq : u = node := List.inj_on_of_nodup_map h.types_nodup hu hnode (hubare.trans hbare)
    rw [heq]

end Interner

/-! ## Part by part through a table -/

namespace Ty

def mapFieldM (f : Ty → Interning Ty) (x : String × Ty) : Interning (String × Ty) := do
  pure (x.1, ← f x.2)

def mapParamM (f : Ty → Interning Ty) (p : Param Ty) : Interning (Param Ty) := do
  pure { p with ty := ← f p.ty }

/-- The type with every part rewritten by a computation, one after the other. -/
def mapPartsM (f : Ty → Interning Ty) : Ty → Interning Ty
  | prim p => pure (prim p)
  | list s t => do pure (list s (← f t))
  | map s t u => do
    let t ← f t
    let u ← f u
    pure (map s t u)
  | maybe s t => do pure (maybe s (← f t))
  | result s t u => do
    let t ← f t
    let u ← f u
    pure (result s t u)
  | struct s n args fields => do
    let args ← args.mapM f
    let fields ← fields.mapM (mapFieldM f)
    pure (struct s n args fields)
  | enum s n members => pure (enum s n members)
  | function s n params ret => do
    let params ← params.mapM (mapParamM f)
    let ret ← f ret
    pure (function s n params ret)
  | var s n => pure (var s n)

section Unfolding

variable (bindings : Bindings)

theorem substituteAll_eq_mapM (ts : List Ty) :
    substituteAll bindings ts = ts.mapM (substitute bindings) := by
  induction ts with
  | nil => rfl
  | cons t rest ih => rw [substituteAll, ih, List.mapM_cons]

theorem substituteFields_eq_mapM (fs : List (String × Ty)) :
    substituteFields bindings fs = fs.mapM (mapFieldM (substitute bindings)) := by
  induction fs with
  | nil => rfl
  | cons f rest ih =>
    rw [substituteFields, ih, List.mapM_cons]
    rfl

theorem substituteParams_eq_mapM (ps : List (Param Ty)) :
    substituteParams bindings ps = ps.mapM (mapParamM (substitute bindings)) := by
  induction ps with
  | nil => rfl
  | cons p rest ih =>
    rw [substituteParams, ih, List.mapM_cons]
    rfl

theorem substitute_of_closed {t : Ty} (h : t.hasVar = false) : t.substitute bindings = pure t := by
  rw [substitute.eq_def, h]
  rfl

theorem substitute_nil (t : Ty) : t.substitute [] = pure t := by
  rw [substitute.eq_def]
  simp

theorem substitute_var {bindings : Bindings} (hbound : bindings.isEmpty = false) (s : Stamp)
    (n : String) :
    (var s n).substitute bindings = pure ((bindings.find? n).getD (var s n)) := by
  rw [substitute.eq_def]
  simp [hbound]

/-- An open type that is no parameter is built anew after its parts. -/
theorem substitute_eq_mapPartsM {bindings : Bindings} {t : Ty} (hopen : t.hasVar = true)
    (hbound : bindings.isEmpty = false) (hvar : t.isVar = false) :
    t.substitute bindings =
      t.mapPartsM (substitute bindings) >>= fun u => intern (u.restamp .blank) := by
  rw [substitute.eq_def, hopen, hbound]
  cases t with
  | prim | enum => simp at hopen
  | var => contradiction
  | _ =>
    simp [mapPartsM, restamp, Intern.list, Intern.map, Intern.maybe, Intern.result, Intern.struct,
      Intern.function, substituteAll_eq_mapM, substituteFields_eq_mapM, substituteParams_eq_mapM]

/-- A type is answered with itself, or it is a parameter, or it is built anew. -/
theorem substitute_cases (t : Ty) :
    t.substitute bindings = pure t ∨
      (∃ s n, t = var s n ∧ t.substitute bindings = pure ((bindings.find? n).getD t)) ∨
      (t.isPrimitive = false ∧ t.substitute bindings =
        t.mapPartsM (substitute bindings) >>= fun u => intern (u.restamp .blank)) := by
  cases hopen : t.hasVar with
  | false => exact .inl (substitute_of_closed bindings hopen)
  | true =>
    cases hempty : bindings.isEmpty with
    | true =>
      rw [List.isEmpty_iff.mp hempty]
      exact .inl (substitute_nil t)
    | false =>
      cases t with
      | prim p => simp at hopen
      | var s n => exact .inr (.inl ⟨s, n, rfl, substitute_var hempty s n⟩)
      | _ => exact .inr (.inr ⟨rfl, substitute_eq_mapPartsM hopen hempty rfl⟩)

end Unfolding

/-! ## Computations that leave the table alone -/

section Unchanged

variable {α β : Type} {interner : Interner}

theorem bind_of_eq {x : Interning α} {g : α → Interning β} {a : α} (h : x interner = (a, interner)) :
    (x >>= g) interner = g a interner := by
  show g (x interner).1 (x interner).2 = g a interner
  rw [h]

theorem mapM_of_eq {f : α → Interning α} {l : List α} (h : ∀ a ∈ l, f a interner = (a, interner)) :
    l.mapM f interner = (l, interner) := by
  induction l with
  | nil => rfl
  | cons a rest ih =>
    have hrest := ih fun b hb => h b (List.mem_cons_of_mem _ hb)
    rw [List.mapM_cons, bind_of_eq (h a List.mem_cons_self), bind_of_eq hrest]
    rfl

/-- Parts that are answered with themselves make up the type again. -/
theorem mapPartsM_of_eq {f : Ty → Interning Ty} {t : Ty}
    (h : ∀ u ∈ t.parts, f u interner = (u, interner)) : t.mapPartsM f interner = (t, interner) := by
  cases t with
  | prim | enum | var => rfl
  | list s u | maybe s u =>
    rw [mapPartsM, bind_of_eq (h u (by simp [parts]))]
    rfl
  | map s u w | result s u w =>
    rw [mapPartsM, bind_of_eq (h u (by simp [parts])), bind_of_eq (h w (by simp [parts]))]
    rfl
  | struct s n args fields =>
    have hargs : args.mapM f interner = (args, interner) :=
      mapM_of_eq fun u hu => h u (List.mem_append_left _ hu)
    have hfields : fields.mapM (mapFieldM f) interner = (fields, interner) :=
      mapM_of_eq fun x hx => bind_of_eq (h x.2 (List.mem_append_right _ (List.mem_map_of_mem hx)))
    rw [mapPartsM, bind_of_eq hargs, bind_of_eq hfields]
    rfl
  | function s n params ret =>
    have hparams : params.mapM (mapParamM f) interner = (params, interner) :=
      mapM_of_eq fun p hp => bind_of_eq (h p.ty (List.mem_append_left _ (List.mem_map_of_mem hp)))
    rw [mapPartsM, bind_of_eq hparams, bind_of_eq (h ret (by simp [parts]))]
    rfl

end Unchanged

open Interner

variable {bindings : Bindings} {interner : Interner} {t : Ty}

/-- By induction on the type: nothing is built anew if no name in it is bound and the table holds
all of it. -/
theorem substitute_of_unbound (hconsed : interner.Consed)
    (hheld : Everywhere parts interner.Holds t)
    (hunbound : ∀ n ∈ t.openNames, bindings.find? n = none) :
    t.substitute bindings interner = (t, interner) := by
  induction t using induction with
  | step t ih =>
    obtain hsame | ⟨s, n, rfl, hparam⟩ | ⟨hprim, hbuilt⟩ := substitute_cases bindings t
    · rw [hsame]
      rfl
    · rw [hparam, hunbound n (by simp [openNames_var])]
      rfl
    · have hparts : ∀ u ∈ t.parts, u.substitute bindings interner = (u, interner) := by
        intro u hu
        apply ih u hu (hheld.inside u hu)
        intro n hn
        exact hunbound n (mem_openNames_of_part hu hn)
      have hmem : t ∈ interner.entries :=
        (holds_iff.mp hheld.here).resolve_left (Bool.eq_false_iff.mp hprim)
      rw [hbuilt, bind_of_eq (mapPartsM_of_eq hparts)]
      exact hconsed.intern_eq hmem (bare_restamp .blank t)

/-- A table that holds a type and what its parameters are bound to holds what they give. -/
theorem holds_substitute (ht : interner.Holds t)
    (hbindings : ∀ e ∈ bindings, interner.Holds e.2) :
    (t.substitute bindings interner).2.Holds (t.substitute bindings interner).1 := by
  obtain hsame | ⟨s, n, rfl, hparam⟩ | ⟨-, hbuilt⟩ := substitute_cases bindings t
  · rw [hsame]
    exact ht
  · rw [hparam]
    cases hfind : bindings.find? n with
    | none => exact ht
    | some u => exact hbindings (n, u) (Dict.mem_of_find? hfind)
  · rw [hbuilt]
    exact (nodeOf_intern _ _).holds

/-- Substitution gives the instance of a type, whatever the table was filled with. If the table
holds the type and all that is in it, and none of the parameters in it is bound, the answer is the
node of the type itself, and nothing is added to the table. -/
theorem substitute_same_instantiate (table : Nat) (calls : List Call) (t : Ty)
    (bindings : Bindings) :
    let filled := (runAll calls (empty table)).2
    (t.substitute bindings filled).1.same (t.instantiate bindings) = true ∧
      (Everywhere parts filled.Holds t → (∀ n ∈ t.openNames, bindings.find? n = none) →
        t.substitute bindings filled = (t, filled)) := by
  intro filled
  refine ⟨(same_iff_bare _ _).mpr (bare_substitute bindings t filled), ?_⟩
  exact substitute_of_unbound ((adds_runAll calls _).consed (consed_empty table))

/-- An open parameter and the list of it, as a table builds them first. -/
def openItem : Ty := var ⟨0, 0⟩ "T"

def openList : Ty := list ⟨0, 1⟩ openItem

theorem runAll_openList : runAll [.var "T", .list openItem] (empty 0) =
    ([openItem, openList], ⟨0, [openList, openItem]⟩) := by
  have hfind : find? (list .blank openItem) ⟨0, [openItem]⟩ = none := by
    simp [find?, beq_eq_same, same, openItem]
  have hlist : intern (list .blank openItem) ⟨0, [openItem]⟩ =
      (openList, ⟨0, [openList, openItem]⟩) := by
    simp [intern, isPrimitive, hfind, add, restamp, openList, size]
  have hitem : intern (var .blank "T") (empty 0) = (openItem, ⟨0, [openItem]⟩) := rfl
  rw [runAll_cons, Call.run_eq_intern rfl, hitem, runAll_cons, Call.run_eq_intern rfl, hlist]
  rfl

/-- With another name bound, the list is answered with itself, and the table stays as it is. -/
theorem substitute_openList_unbound :
    let filled := (runAll [.var "T", .list openItem] (empty 0)).2
    Everywhere parts filled.Holds openList ∧
      (∀ n ∈ openList.openNames, Dict.find? n [("S", int)] = none) ∧
      openList.substitute [("S", int)] filled = (openList, filled) := by
  intro filled
  have hfilled : filled = ⟨0, [openList, openItem]⟩ := congrArg Prod.snd runAll_openList
  have hheld : Everywhere parts filled.Holds openList := by
    rw [hfilled]
    have hitem : Everywhere parts (Holds ⟨0, [openList, openItem]⟩) openItem :=
      .of_leaf rfl (holds_iff.mpr (.inr (by simp)))
    exact .intro (holds_iff.mpr (.inr (by simp))) (List.forall_mem_singleton.mpr hitem)
  have hnames : ∀ n ∈ openList.openNames, Dict.find? n [("S", int)] = none := by
    intro n hn
    obtain ⟨u, hu, hn⟩ := (mem_openNames_of_isVar_eq_false rfl).mp hn
    obtain rfl := List.mem_singleton.mp hu
    rw [openItem, openNames_var] at hn
    obtain rfl := hn
    rfl
  exact ⟨hheld, hnames,
    (substitute_same_instantiate 0 [.var "T", .list openItem] openList [("S", int)]).2 hheld hnames⟩

end Ty

end TypedValues
