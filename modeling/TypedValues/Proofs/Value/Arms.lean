import TypedValues.Proofs.Value.Reachable

/-!
# Refined arms

A label is offered a type by a declared one and has a type of its own, which for an arm are those
of the arm; refined, it has the type that it was offered if its own gives way to it, and its own if
not. So an arm becomes a value of a result kind if it is offered a result or has one of its own,
that is, only where an arm of a result is itself a result (`Value.kind_refine_eq_result_iff`).
-/

namespace TypedValues

namespace Label

/-- The type that a label is offered: of a declared result, an arm takes the type of its arm. -/
def offered (declared : Ty) (l : Label) : Ty :=
  (l.flags.branch?.bind fun branch => declared.arm? branch).getD declared

/-- The type that a label has of its own: for an arm, the one that the result it came from names,
if that is known. -/
def own (l : Label) : Ty :=
  (l.flags.branch?.bind fun branch => l.definition?.bind (Ty.arm? branch)).getD l.ty

variable (declared : Ty) (l : Label)

theorem snd_resolveArm : (l.resolveArm declared).2 = l.offered declared := by
  cases hb : l.flags.branch? with
  | none => simp [offered, hb, resolveArm_of_whole hb]
  | some branch =>
    cases harm : declared.arm? branch with
    | none => simp [offered, hb, harm, resolveArm_of_other hb harm]
    | some arm => simp [offered, hb, harm, resolveArm_of_result hb harm]

theorem bare_ty_resolveArm : (l.resolveArm declared).1.ty.bare = l.own.bare := by
  cases hb : l.flags.branch? with
  | none => simp [own, hb, resolveArm_of_whole hb]
  | some branch =>
    have hresolved : (l.resolved branch).ty.bare = l.own.bare := by
      rw [own, hb, Option.bind_some]
      cases hdef : l.definition?.bind (Ty.arm? branch) with
      | none => rw [resolved_of_none hdef, Option.getD_none]
      | some arm => rw [bare_ty_resolved hdef, Option.getD_some]
    cases harm : declared.arm? branch with
    | none => rw [resolveArm_of_other hb harm, ty_withOrigin, hresolved]
    | some arm => rw [resolveArm_of_result hb harm, ty_withOrigin, hresolved]

/-- A refined label has the type that it was offered, if its own gives way to it. -/
theorem bare_ty_refine : (l.refine declared).1.ty.bare =
    (if l.own.givesWay (l.offered declared) then l.offered declared else l.own).bare := by
  have hgives := Ty.givesWay_congr (bare_ty_resolveArm declared l)
    (congrArg Ty.bare (snd_resolveArm declared l))
  rw [refine_eq_adopt, fst_adopt, hgives]
  split
  · rw [bare_ty_replaceTy, snd_resolveArm]
  · exact bare_ty_resolveArm declared l

/-- The values inside are refined if the type gives way, but not as a whole. -/
theorem snd_refine : (l.refine declared).2 =
    if (l.own.isMaybe || l.own.isVar) = false ∧ l.own.givesWay (l.offered declared) = true then
      some (l.offered declared) else none := by
  have hbare := bare_ty_resolveArm declared l
  rw [refine_eq_adopt, snd_resolveArm, ← Ty.isMaybe_congr hbare, ← Ty.isVar_congr hbare,
    ← Ty.givesWay_congr hbare rfl]
  cases hwhole : (l.resolveArm declared).1.ty.isMaybe || (l.resolveArm declared).1.ty.isVar with
  | true => simp [adopt_of_whole hwhole]
  | false =>
    cases hgive : (l.resolveArm declared).1.ty.givesWay (l.offered declared) with
    | true => simp [adopt_of_open hwhole hgive]
    | false => simp [adopt_of_stays hgive]

end Label

/-! ## The kind of a refined arm -/

namespace Label

variable {l : Label} {branch : Branch} {declared arm result : Ty}

theorem offered_of_whole (hb : l.flags.branch? = none) : l.offered declared = declared := by
  rw [offered, hb, Option.bind_none, Option.getD_none]

theorem own_of_whole (hb : l.flags.branch? = none) : l.own = l.ty := by
  rw [own, hb, Option.bind_none, Option.getD_none]

theorem offered_of_arm (hb : l.flags.branch? = some branch)
    (harm : declared.arm? branch = some arm) : l.offered declared = arm := by
  rw [offered, hb, Option.bind_some, harm, Option.getD_some]

theorem own_of_definition (hb : l.flags.branch? = some branch) (hdef : l.definition? = some result)
    (harm : result.arm? branch = some arm) : l.own = arm := by
  rw [own, hb, Option.bind_some, hdef, Option.bind_some, harm, Option.getD_some]

/-- An arm is offered a result exactly if the declared type is a result with a result as its arm. -/
theorem isResult_offered_iff (hb : l.flags.branch? = some branch) :
    (l.offered declared).isResult = true ↔
      ∃ arm, declared.arm? branch = some arm ∧ arm.isResult = true := by
  cases harm : declared.arm? branch with
  | none =>
    have hother : l.offered declared = declared := by
      rw [offered, hb, Option.bind_some, harm, Option.getD_none]
    rw [hother, Ty.isResult_of_arm?_eq_none harm]
    simp
  | some arm => simp [offered_of_arm hb harm]

/-- An arm has a result as its own type exactly if the result that it came from has one as its
arm. -/
theorem Coherent.isResult_own_iff (hl : l.Coherent) (hb : l.flags.branch? = some branch) :
    l.own.isResult = true ↔ ∃ result arm, l.definition? = some result ∧
      result.arm? branch = some arm ∧ arm.isResult = true := by
  cases hdef : l.definition?.bind (Ty.arm? branch) with
  | none =>
    have hown : l.own = l.ty := by rw [own, hb, Option.bind_some, hdef, Option.getD_none]
    rw [hown, hl.isResult_of_unresolved hdef]
    simp only [Bool.false_eq_true, false_iff]
    rintro ⟨result, arm, hresult, harm, -⟩
    rw [hresult, Option.bind_some, harm] at hdef
    contradiction
  | some arm =>
    obtain ⟨result, hresult, harm⟩ := Option.bind_eq_some_iff.mp hdef
    simp [own_of_definition hb hresult harm, hresult, harm]

end Label

namespace Value

variable {v : Value} {branch : Branch}

/-- A refined value has the kind of the type that it was offered, or of its own. -/
theorem kind_refine (declared : Ty) (hv : v.label.Coherent) :
    (v.refine declared).kind =
      Kind.ofTy (if v.label.own.givesWay (v.label.offered declared) then v.label.offered declared
        else v.label.own) := by
  obtain ⟨l, p⟩ := v
  rw [refine_mk, kind, (hv.refine declared).kind_eq, ← Ty.kind_bare, Label.bare_ty_refine,
    Ty.kind_bare]

/-- A refined arm is of the result kind exactly if a result has a result as its arm: the declared
type, if the own type of the arm gives way to that, or else the type that the arm came from, if its
arm stays. -/
theorem kind_refine_eq_result_iff (declared : Ty) (hv : v.Reachable)
    (hb : v.branch? = some branch) : (v.refine declared).kind = .result ↔
      (∃ arm, declared.arm? branch = some arm ∧ arm.isResult = true ∧
        v.label.own.givesWay arm = true) ∨
      ∃ result arm, v.label.definition? = some result ∧ result.arm? branch = some arm ∧
        arm.isResult = true ∧ arm.givesWay (v.label.offered declared) = false := by
  have hl := hv.coherent.here
  rw [kind_refine declared hl, Kind.ofTy_eq_result]
  constructor
  · intro h
    split at h
    · next hgive =>
      obtain ⟨arm, harm, hresult⟩ := (Label.isResult_offered_iff hb).mp h
      rw [Label.offered_of_arm hb harm] at hgive
      exact .inl ⟨arm, harm, hresult, hgive⟩
    · next hstay =>
      obtain ⟨result, arm, hdef, harm, hresult⟩ := (hl.isResult_own_iff hb).mp h
      rw [Label.own_of_definition hb hdef harm] at hstay
      exact .inr ⟨result, arm, hdef, harm, hresult, Bool.eq_false_iff.mpr hstay⟩
  · rintro (⟨arm, harm, hresult, hgive⟩ | ⟨result, arm, hdef, harm, hresult, hstay⟩)
    · rw [Label.offered_of_arm hb harm, if_pos hgive, hresult]
    · rw [Label.own_of_definition hb hdef harm, if_neg (Bool.eq_false_iff.mp hstay), hresult]

/-- A good arm that is still of its result type. -/
def unresolvedArm : Value := (typed (.result .blank .int .str) (.int 1)).makeArm .ok

/-- It takes the type of its arm, and is of that kind. -/
theorem kind_refine_unresolvedArm :
    unresolvedArm.Reachable ∧ unresolvedArm.branch? = some .ok ∧
      (unresolvedArm.refine (.result .blank .str .str)).kind ≠ .result := by
  have hreach : unresolvedArm.Reachable := .makeArm .ok (.typed _ nofun)
  refine ⟨hreach, rfl, fun h => ?_⟩
  obtain ⟨arm, harm, hresult, -⟩ | ⟨result, arm, hdef, harm, hresult, -⟩ :=
    (kind_refine_eq_result_iff _ hreach rfl).mp h
  · cases harm
    contradiction
  · cases hdef
    cases harm
    contradiction

/-- A good arm of an open type of which nothing else is known. -/
def openTypedArm : Value := (typed (.var .blank "T") (.int 1)).makeArm .ok

/-- It takes the arm of a declared result as a whole, be that a result or not. -/
theorem kind_refine_openTypedArm :
    openTypedArm.Reachable ∧ openTypedArm.branch? = some .ok ∧
      (openTypedArm.refine (.result .blank (.result .blank .int .str) .str)).kind = .result := by
  have hreach : openTypedArm.Reachable := .makeArm .ok (.typed _ nofun)
  refine ⟨hreach, rfl, ?_⟩
  rw [kind_refine _ hreach.coherent.here]
  rfl

end Value

end TypedValues
