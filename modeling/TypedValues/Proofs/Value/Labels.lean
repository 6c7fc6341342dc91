import TypedValues.Proofs.Ty.Parts
import TypedValues.Proofs.Value.Slots

/-!
# Refining a label

The label of a value is refined in two steps: an arm is resolved first (`Label.resolveArm`), and
what is left of the label then adopts the declared type or not (`Label.adopt`). A label is
coherent if its kind and its name are those of its type, as in every label that is made from a
type.
-/

namespace TypedValues

namespace Ty

/-- Whether a recorded type gives way to a declared one: a maybe and a parameter always do, any
other type with the mark of a parameter does to a type without it. -/
def givesWay (t declared : Ty) : Bool :=
  t.isMaybe || t.isVar || (t.hasGenerics && !declared.hasGenerics)

theorem givesWay_congr {d e t u : Ty} (h : t.bare = u.bare) (hd : d.bare = e.bare) :
    t.givesWay d = u.givesWay e := by
  rw [givesWay, givesWay, isMaybe_congr h, isVar_congr h, hasGenerics_congr h, hasGenerics_congr hd]

/-- No type gives way to itself, except a maybe or a parameter. -/
theorem givesWay_self (t : Ty) : t.givesWay t = (t.isMaybe || t.isVar) := by
  simp [givesWay]

end Ty

namespace Label

variable {l : Label} {t declared : Ty}

/-- Kind and name are those of the type. -/
structure Coherent (l : Label) : Prop where
  kind_eq : l.kind = .ofTy l.ty
  name_eq : l.name = l.ty.name

theorem coherent_ofTy (t : Ty) : (ofTy t).Coherent := ⟨rfl, rfl⟩

theorem coherent_retype (t : Ty) (l : Label) : (l.retype t).Coherent := ⟨rfl, rfl⟩

/-! ## Replacing the type -/

theorem replaceTy_of_bare_eq (h : l.ty.bare = t.bare) : l.replaceTy t = l :=
  if_pos ((Ty.beq_iff_bare l.ty t).mpr h)

theorem replaceTy_of_bare_ne (h : l.ty.bare ≠ t.bare) : l.replaceTy t = l.retype t :=
  if_neg fun heq => h ((Ty.beq_iff_bare l.ty t).mp heq)

theorem bare_ty_replaceTy (t : Ty) (l : Label) : (l.replaceTy t).ty.bare = t.bare := by
  by_cases h : l.ty.bare = t.bare
  · rw [replaceTy_of_bare_eq h, h]
  · rw [replaceTy_of_bare_ne h]
    rfl

@[simp]
theorem flags_replaceTy (t : Ty) (l : Label) : (l.replaceTy t).flags = l.flags := by
  unfold replaceTy
  split <;> rfl

@[simp]
theorem origin_replaceTy (t : Ty) (l : Label) : (l.replaceTy t).origin = l.origin := by
  unfold replaceTy
  split <;> rfl

theorem Coherent.replaceTy (h : l.Coherent) (t : Ty) : (l.replaceTy t).Coherent := by
  unfold Label.replaceTy
  split
  · exact h
  · exact coherent_retype t l

/-! ## Adopting a declared type -/

/-- The second step: the label with the declared type, if its own gives way to it, and the type
that the values inside are refined against. -/
def adopt (declared : Ty) (l : Label) : Label × Option Ty :=
  if l.ty.isMaybe || l.ty.isVar then (l.replaceTy declared, none)
  else if l.ty.hasGenerics && !declared.hasGenerics then (l.replaceTy declared, some declared)
  else (l, none)

theorem refine_eq_adopt (declared : Ty) (l : Label) :
    l.refine declared = (l.resolveArm declared).1.adopt (l.resolveArm declared).2 := rfl

theorem adopt_of_stays (h : l.ty.givesWay declared = false) : l.adopt declared = (l, none) := by
  simp only [Ty.givesWay, Bool.or_eq_false_iff] at h
  simp [adopt, h.1.1, h.1.2, h.2]

theorem adopt_of_whole (h : (l.ty.isMaybe || l.ty.isVar) = true) :
    l.adopt declared = (l.replaceTy declared, none) := if_pos h

/-- Any other type gives way together with the values inside. -/
theorem adopt_of_open (h : (l.ty.isMaybe || l.ty.isVar) = false)
    (hopen : l.ty.givesWay declared = true) :
    l.adopt declared = (l.replaceTy declared, some declared) := by
  have hopen : (l.ty.hasGenerics && !declared.hasGenerics) = true := by
    rwa [Ty.givesWay, h, Bool.false_or] at hopen
  rw [adopt, if_neg (Bool.eq_false_iff.mp h), if_pos hopen]

theorem fst_adopt (declared : Ty) (l : Label) :
    (l.adopt declared).1 = if l.ty.givesWay declared then l.replaceTy declared else l := by
  unfold adopt Ty.givesWay
  split
  · next h => rw [h, Bool.true_or, if_pos rfl]
  · next h => rw [Bool.eq_false_iff.mpr h, Bool.false_or]; split <;> rfl

@[simp]
theorem flags_adopt (declared : Ty) (l : Label) : (l.adopt declared).1.flags = l.flags := by
  rw [fst_adopt]
  split <;> simp

@[simp]
theorem origin_adopt (declared : Ty) (l : Label) : (l.adopt declared).1.origin = l.origin := by
  rw [fst_adopt]
  split <;> simp

theorem Coherent.adopt (h : l.Coherent) (declared : Ty) : (l.adopt declared).1.Coherent := by
  rw [fst_adopt]
  split
  · exact h.replaceTy declared
  · exact h

/-! ## Resolving an arm -/

/-- A label of another type than a result came from what it keeps as its origin. -/
theorem Coherent.definition?_eq (h : l.Coherent) (hty : l.ty.isResult = false) :
    l.definition? = l.origin := by
  apply if_neg
  intro hkind
  rw [h.kind_eq] at hkind
  cases ht : l.ty with
  | prim p => rw [ht] at hkind; cases p <;> contradiction
  | result => rw [ht] at hty; contradiction
  | _ => rw [ht] at hkind; contradiction

theorem Coherent.definition?_of_result (h : l.Coherent) (hty : l.ty.isResult = true) :
    l.definition? = some l.ty := by
  apply if_pos
  rw [h.kind_eq]
  cases ht : l.ty <;> simp_all [Ty.isResult, Kind.ofTy]

/-- An arm that knows of no result that it came from is no result itself. -/
theorem Coherent.isResult_of_unresolved {branch : Branch} (h : l.Coherent)
    (hdef : l.definition?.bind (Ty.arm? branch) = none) : l.ty.isResult = false := by
  cases hresult : l.ty.arm? branch with
  | none => exact Ty.isResult_of_arm?_eq_none hresult
  | some arm =>
    rw [h.definition?_of_result (Ty.isResult_of_arm? hresult), Option.bind_some, hresult] at hdef
    contradiction

theorem resolveArm_of_whole (h : l.flags.branch? = none) : l.resolveArm declared = (l, declared) := by
  simp [resolveArm, h]

/-- The label of an arm with the type of its arm, as far as the result it came from is known. -/
def resolved (branch : Branch) (l : Label) : Label :=
  match l.definition?.bind (Ty.arm? branch) with
  | some arm => l.replaceTy arm
  | none => l

theorem bare_ty_resolved {branch : Branch} {own : Ty}
    (h : l.definition?.bind (Ty.arm? branch) = some own) : (l.resolved branch).ty.bare = own.bare := by
  rw [resolved, h]
  exact bare_ty_replaceTy own l

theorem resolved_of_none {branch : Branch} (h : l.definition?.bind (Ty.arm? branch) = none) :
    l.resolved branch = l := by
  rw [resolved, h]

theorem resolved_of_bare_eq {branch : Branch} {own : Ty}
    (h : l.definition?.bind (Ty.arm? branch) = some own) (hty : l.ty.bare = own.bare) :
    l.resolved branch = l := by
  rw [resolved, h]
  exact replaceTy_of_bare_eq hty

def withOrigin (origin : Option Ty) (l : Label) : Label := { l with origin }

@[simp]
theorem ty_withOrigin (origin : Option Ty) (l : Label) : (l.withOrigin origin).ty = l.ty := rfl

@[simp]
theorem flags_withOrigin (origin : Option Ty) (l : Label) : (l.withOrigin origin).flags = l.flags :=
  rfl

@[simp]
theorem origin_withOrigin (origin : Option Ty) (l : Label) :
    (l.withOrigin origin).origin = origin := rfl

theorem withOrigin_of_eq {origin : Option Ty} (h : l.origin = origin) : l.withOrigin origin = l := by
  subst h
  rfl

/-- A declared result is what the arm came from, and its arm stands in its place. -/
theorem resolveArm_of_result {branch : Branch} {arm : Ty} (h : l.flags.branch? = some branch)
    (harm : declared.arm? branch = some arm) :
    l.resolveArm declared = ((l.resolved branch).withOrigin (some declared), arm) := by
  simp only [resolveArm, h, harm]
  rfl

/-- Any other declared type stands for the arm itself. -/
theorem resolveArm_of_other {branch : Branch} (h : l.flags.branch? = some branch)
    (harm : declared.arm? branch = none) :
    l.resolveArm declared = ((l.resolved branch).withOrigin l.definition?, declared) := by
  simp only [resolveArm, h, harm]
  rfl

/-! ## Refining -/

theorem refine_of_whole (h : l.flags.branch? = none) : l.refine declared = l.adopt declared := by
  rw [refine_eq_adopt, resolveArm_of_whole h]

theorem refine_of_result {branch : Branch} {arm : Ty} (h : l.flags.branch? = some branch)
    (harm : declared.arm? branch = some arm) :
    l.refine declared = ((l.resolved branch).withOrigin (some declared)).adopt arm := by
  rw [refine_eq_adopt, resolveArm_of_result h harm]

theorem refine_of_other {branch : Branch} (h : l.flags.branch? = some branch)
    (harm : declared.arm? branch = none) :
    l.refine declared = ((l.resolved branch).withOrigin l.definition?).adopt declared := by
  rw [refine_eq_adopt, resolveArm_of_other h harm]

@[simp]
theorem flags_resolved (branch : Branch) (l : Label) : (l.resolved branch).flags = l.flags := by
  unfold resolved
  split <;> simp

/-- All that refining a label does: it adopts a type, as it is or, if it is that of an arm, after
it was resolved and given an origin. -/
theorem refine_cases (declared : Ty) (l : Label) :
    l.flags.branch? = none ∧ l.refine declared = l.adopt declared ∨
      ∃ branch origin t, l.flags.branch? = some branch ∧
        l.refine declared = ((l.resolved branch).withOrigin origin).adopt t ∧
        (origin = l.definition? ∨ origin = some declared ∧ declared.arm? branch = some t) := by
  cases hb : l.flags.branch? with
  | none => exact .inl ⟨rfl, refine_of_whole hb⟩
  | some branch =>
    cases harm : declared.arm? branch with
    | none => exact .inr ⟨branch, _, _, rfl, refine_of_other hb harm, .inl rfl⟩
    | some arm => exact .inr ⟨branch, _, _, rfl, refine_of_result hb harm, .inr ⟨rfl, harm⟩⟩

@[simp]
theorem flags_refine (declared : Ty) (l : Label) : (l.refine declared).1.flags = l.flags := by
  obtain ⟨-, hrefine⟩ | ⟨branch, origin, t, -, hrefine, -⟩ := refine_cases declared l
  · rw [hrefine, flags_adopt]
  · rw [hrefine, flags_adopt, flags_withOrigin, flags_resolved]

/-- An origin that a refined label keeps was kept before, or is the type that the arm came from
or came to. -/
theorem origin_refine {t : Ty} (h : (l.refine declared).1.origin = some t) :
    l.origin = some t ∨ l.flags.branch?.isSome = true ∧ (l.definition? = some t ∨
      t = declared ∧ ∃ branch arm, declared.arm? branch = some arm) := by
  obtain ⟨-, hrefine⟩ | ⟨branch, origin, u, hb, hrefine, horigin⟩ := refine_cases declared l
  · rw [hrefine, origin_adopt] at h
    exact .inl h
  · rw [hrefine, origin_adopt, origin_withOrigin] at h
    subst h
    refine .inr ⟨by rw [hb, Option.isSome_some], ?_⟩
    rcases horigin with hdef | ⟨hdeclared, harm⟩
    · exact .inl hdef.symm
    · exact .inr ⟨Option.some.inj hdeclared, branch, u, harm⟩

theorem Coherent.withOrigin (h : l.Coherent) (origin : Option Ty) :
    (l.withOrigin origin).Coherent := ⟨h.kind_eq, h.name_eq⟩

theorem Coherent.resolved (h : l.Coherent) (branch : Branch) : (l.resolved branch).Coherent := by
  unfold Label.resolved
  split
  · exact h.replaceTy _
  · exact h

theorem Coherent.refine (h : l.Coherent) (declared : Ty) : (l.refine declared).1.Coherent := by
  obtain ⟨-, hrefine⟩ | ⟨branch, origin, t, -, hrefine, -⟩ := refine_cases declared l
  · rw [hrefine]
    exact h.adopt declared
  · rw [hrefine]
    exact ((h.resolved branch).withOrigin origin).adopt t

end Label

/-! ## The label of a refined value -/

def Payload.refineFor : Option Ty → Payload → Payload
  | none, p => p
  | some declared, p => p.refine declared

theorem Value.refine_mk (declared : Ty) (l : Label) (p : Payload) :
    Value.refine declared ⟨l, p⟩ = ⟨(l.refine declared).1, p.refineFor (l.refine declared).2⟩ := by
  rw [Value.refine]
  split <;> (next h => rw [h]; rfl)

/-- The values right inside a refined value were right inside it before, refined or not. -/
theorem Value.exists_of_mem_children_refine {v w : Value} {declared : Ty}
    (h : w ∈ (v.refine declared).children) : ∃ u ∈ v.children, w = u ∨ ∃ t, w = u.refine t := by
  obtain ⟨label, payload⟩ := v
  rw [refine_mk] at h
  cases hfor : (label.refine declared).2 with
  | none =>
    rw [hfor] at h
    exact ⟨w, h, .inl rfl⟩
  | some d =>
    rw [hfor, children, Payload.refineFor, Payload.refine_eq_mapSlots] at h
    obtain ⟨c, hc, rfl⟩ := Payload.mem_children_mapSlots.mp h
    refine ⟨c.2, Payload.mem_children.mpr ⟨c.1, hc⟩, ?_⟩
    unfold Payload.refineSlot
    cases d.slot? c.1 with
    | none => exact .inl rfl
    | some t => exact .inr ⟨t, rfl⟩

/-! ## Coherent values -/

namespace Value

/-- Kind and name are those of the type at every node. -/
def Coherent : Value → Prop := Everywhere children fun v => v.label.Coherent

theorem Coherent.child {v w : Value} (h : v.Coherent) (hw : w ∈ v.children) : w.Coherent :=
  h.inside w hw

end Value

end TypedValues
