import TypedValues.Proofs.Ty.Openness
import TypedValues.Proofs.Value.Reachable
import TypedValues.Proofs.Value.Views

/-!
# Refining twice

Refining a value a second time against one declared type changes nothing more, unless an arm of a
result is in the way. The first call rewrites the origin of an arm, and the second reads the type
of the arm back from it; the type that the first call left may be another one. `Value.Settles`
says exactly when the second call changes nothing.
-/

namespace TypedValues

namespace Label

variable {l : Label} {d arm own inner : Ty} {branch : Branch}

theorem adopt_of_bare_eq (h : l.ty.bare = d.bare) : l.adopt d = (l, none) := by
  cases hw : l.ty.isMaybe || l.ty.isVar with
  | true => rw [adopt_of_whole hw, replaceTy_of_bare_eq h]
  | false =>
    apply adopt_of_stays
    rw [Ty.givesWay_congr rfl h.symm, Ty.givesWay_self, hw]

theorem bare_ty_adopt_of_gives (h : l.ty.givesWay d = true) : (l.adopt d).1.ty.bare = d.bare := by
  rw [fst_adopt, if_pos h, bare_ty_replaceTy]

/-- A label that was offered a type is not changed by a second offer. -/
theorem adopt_adopt (d : Ty) (l : Label) : (l.adopt d).1.adopt d = ((l.adopt d).1, none) := by
  cases h : l.ty.givesWay d with
  | false => rw [adopt_of_stays h, adopt_of_stays h]
  | true => exact adopt_of_bare_eq (bare_ty_adopt_of_gives h)

end Label

/-- The second call changes nothing. An arm settles at a declared result if the first call gave it
the type of the declared arm, and that is no result or one whose own arm is replaced at once. At
any other type it settles if the type that its origin names stays and is no result, or gives way;
the values inside must settle if the type gave way together with them. -/
inductive Value.Settles : Ty → Value → Prop
  | unflagged {d : Ty} {l : Label} {p : Payload} (h : l.flags.branch? = none) : Settles d ⟨l, p⟩
  | declared {d arm : Ty} {l : Label} {p : Payload} {branch : Branch}
      (h : l.flags.branch? = some branch) (harm : d.arm? branch = some arm)
      (hty : (l.resolved branch).ty.givesWay arm = true ∨ (l.resolved branch).ty.bare = arm.bare)
      (hnest : ∀ inner, arm.arm? branch = some inner → (inner.isMaybe || inner.isVar) = true) :
      Settles d ⟨l, p⟩
  | unresolved {d : Ty} {l : Label} {p : Payload} {branch : Branch}
      (h : l.flags.branch? = some branch) (harm : d.arm? branch = none)
      (hdef : l.definition?.bind (Ty.arm? branch) = none) : Settles d ⟨l, p⟩
  | stays {d own : Ty} {l : Label} {p : Payload} {branch : Branch}
      (h : l.flags.branch? = some branch) (harm : d.arm? branch = none)
      (hdef : l.definition?.bind (Ty.arm? branch) = some own) (hstay : own.givesWay d = false)
      (hnest : own.isResult = false) : Settles d ⟨l, p⟩
  | givesWay {d own : Ty} {l : Label} {p : Payload} {branch : Branch}
      (h : l.flags.branch? = some branch) (harm : d.arm? branch = none)
      (hdef : l.definition?.bind (Ty.arm? branch) = some own) (hgive : own.givesWay d = true)
      (hinside : (own.isMaybe || own.isVar) = false →
        ∀ c ∈ p.slots, ∀ u, d.slot? c.1 = some u → Settles u c.2) :
      Settles d ⟨l, p⟩

/-! ## The second call, label by label -/

namespace Label

variable {l : Label} {d arm own : Ty} {branch : Branch}

theorem refine_refine_of_whole (h : l.flags.branch? = none) :
    (l.refine d).1.refine d = ((l.refine d).1, none) := by
  have hflags : (l.refine d).1.flags.branch? = none := by rw [flags_refine, h]
  rw [refine_of_whole hflags, refine_of_whole h, adopt_adopt]

variable {m : Label}

theorem origin_refine_of_result (h : l.flags.branch? = some branch)
    (harm : d.arm? branch = some arm) : (l.refine d).1.origin = some d := by
  rw [refine_of_result h harm, origin_adopt, origin_withOrigin]

/-- The first call gives the type of the declared arm to a type that gives way, or finds it
there. -/
theorem bare_ty_refine_of_result (h : l.flags.branch? = some branch)
    (harm : d.arm? branch = some arm) :
    (l.refine d).1.ty.bare = arm.bare ↔
      (l.resolved branch).ty.givesWay arm = true ∨ (l.resolved branch).ty.bare = arm.bare := by
  rw [refine_of_result h harm, fst_adopt, ty_withOrigin]
  cases hgive : (l.resolved branch).ty.givesWay arm with
  | true => simpa using bare_ty_replaceTy arm _
  | false => simp

/-- An arm that came from the declared result and has the type of its arm is left alone, if that
is no result or has an arm that is replaced at once. -/
theorem refine_of_arm_ty (hm : m.Coherent) (h : m.flags.branch? = some branch)
    (harm : d.arm? branch = some arm) (horigin : m.origin = some d) (hty : m.ty.bare = arm.bare)
    (hnest : ∀ inner, arm.arm? branch = some inner → (inner.isMaybe || inner.isVar) = true) :
    (m.refine d).1.bare = m.bare ∧ (m.refine d).2 = none := by
  cases hinner : m.ty.arm? branch with
  | none =>
    -- the origin is read back, and names the type that the arm has
    have hdef : m.definition?.bind (Ty.arm? branch) = some arm := by
      rw [hm.definition?_eq (Ty.isResult_of_arm?_eq_none hinner), horigin, Option.bind_some, harm]
    rw [refine_of_result h harm, resolved_of_bare_eq hdef hty, withOrigin_of_eq horigin,
      adopt_of_bare_eq hty]
    exact ⟨rfl, rfl⟩
  | some inner =>
    -- the arm is a result itself, which is taken for the origin: its own arm comes in its place,
    -- and gives way to the declared arm at once
    obtain ⟨inner', hinner', heq⟩ := Ty.arm?_congr hty hinner
    have hdef : m.definition?.bind (Ty.arm? branch) = some inner := by
      rw [hm.definition?_of_result (Ty.isResult_of_arm? hinner), Option.bind_some, hinner]
    have hres : (m.resolved branch).ty.bare = inner'.bare := (bare_ty_resolved hdef).trans heq
    have hwhole : ((m.resolved branch).ty.isMaybe || (m.resolved branch).ty.isVar) = true := by
      rw [Ty.isMaybe_congr hres, Ty.isVar_congr hres, hnest inner' hinner']
    have hrefine : m.refine d =
        (((m.resolved branch).withOrigin (some d)).replaceTy arm, none) := by
      rw [refine_of_result h harm]
      exact adopt_of_whole hwhole
    refine ⟨(hm.refine d).bare_congr hm ?_ (flags_refine d m) ?_, by rw [hrefine]⟩
    · rw [hrefine, hty]
      exact bare_ty_replaceTy arm _
    · rw [hrefine, origin_replaceTy, horigin, origin_withOrigin]

/-- Only such an arm is left alone at a declared result. -/
theorem arm_ty_of_refine (hm : m.Coherent) (h : m.flags.branch? = some branch)
    (harm : d.arm? branch = some arm) (horigin : m.origin = some d)
    (hsame : (m.refine d).1.ty.bare = m.ty.bare) :
    m.ty.bare = arm.bare ∧
      ∀ inner, arm.arm? branch = some inner → (inner.isMaybe || inner.isVar) = true := by
  rw [refine_of_result h harm, fst_adopt] at hsame
  cases hinner : m.ty.arm? branch with
  | none =>
    have hdef : m.definition?.bind (Ty.arm? branch) = some arm := by
      rw [hm.definition?_eq (Ty.isResult_of_arm?_eq_none hinner), horigin, Option.bind_some, harm]
    have hres : (m.resolved branch).ty.bare = arm.bare := bare_ty_resolved hdef
    have hty : m.ty.bare = arm.bare := by
      split at hsame
      · rw [← hsame, bare_ty_replaceTy]
      · exact hsame.symm.trans hres
    refine ⟨hty, ?_⟩
    intro inner hin
    obtain ⟨inner', hin', -⟩ := Ty.arm?_congr hty.symm hin
    rw [hinner] at hin'
    contradiction
  | some inner =>
    have hdef : m.definition?.bind (Ty.arm? branch) = some inner := by
      rw [hm.definition?_of_result (Ty.isResult_of_arm? hinner), Option.bind_some, hinner]
    have hres : (m.resolved branch).ty.bare = inner.bare := bare_ty_resolved hdef
    split at hsame
    · next hgive =>
      rw [bare_ty_replaceTy] at hsame
      refine ⟨hsame.symm, ?_⟩
      intro inner' hinner'
      obtain ⟨inner'', hin, heq⟩ := Ty.arm?_congr hsame hinner'
      rw [hinner] at hin
      cases hin
      rw [ty_withOrigin, Ty.givesWay_congr (hres.trans heq.symm) rfl, Ty.givesWay] at hgive
      -- an arm with the mark would have put it into the name of the type it gives way to
      cases hgen : inner'.hasGenerics with
      | false => simpa [hgen] using hgive
      | true => simpa [Ty.hasGenerics_of_arm? hinner' hgen] using hgive
    · -- the second call takes the arm of the arm, which is another type
      exact absurd (hres.symm.trans hsame) (Ty.bare_ne_of_arm? hinner)

/-! ### A declared type that is no result -/

theorem origin_refine_of_other (h : l.flags.branch? = some branch) (harm : d.arm? branch = none) :
    (l.refine d).1.origin = l.definition? := by
  rw [refine_of_other h harm, origin_adopt, origin_withOrigin]

theorem refine_refine_of_unresolved (hl : l.Coherent) (h : l.flags.branch? = some branch)
    (harm : d.arm? branch = none) (hdef : l.definition?.bind (Ty.arm? branch) = none) :
    (l.refine d).1.refine d = ((l.refine d).1, none) := by
  have hty := hl.isResult_of_unresolved hdef
  -- both calls come down to the one offer of `d`
  have hfirst : l.refine d = l.adopt d := by
    rw [refine_of_other h harm, resolved_of_none hdef,
      withOrigin_of_eq (hl.definition?_eq hty).symm]
  have hadopted : (l.adopt d).1.ty.isResult = false := by
    rw [fst_adopt]
    split
    · rw [Ty.isResult_congr (bare_ty_replaceTy d l), Ty.isResult_of_arm?_eq_none harm]
    · exact hty
  have hdef' : (l.adopt d).1.definition? = l.definition? := by
    rw [(hl.adopt d).definition?_eq hadopted, origin_adopt, hl.definition?_eq hty]
  rw [hfirst, refine_of_other (by rw [flags_adopt, h]) harm, resolved_of_none (by rw [hdef', hdef]),
    withOrigin_of_eq ((hl.adopt d).definition?_eq hadopted).symm, adopt_adopt]

theorem refine_of_stays (h : l.flags.branch? = some branch) (harm : d.arm? branch = none)
    (hdef : l.definition?.bind (Ty.arm? branch) = some own) (hstay : own.givesWay d = false) :
    l.refine d = ((l.resolved branch).withOrigin l.definition?, none) := by
  rw [refine_of_other h harm, adopt_of_stays]
  exact (Ty.givesWay_congr (bare_ty_resolved hdef) rfl).trans hstay

theorem refine_refine_of_stays (hl : l.Coherent) (h : l.flags.branch? = some branch)
    (harm : d.arm? branch = none) (hdef : l.definition?.bind (Ty.arm? branch) = some own)
    (hstay : own.givesWay d = false) (hown : own.isResult = false) :
    (l.refine d).1.refine d = ((l.refine d).1, none) := by
  have hm := hl.refine d
  have hflags : (l.refine d).1.flags.branch? = some branch := by rw [flags_refine, h]
  have hty : (l.refine d).1.ty.bare = own.bare := by
    rw [refine_of_stays h harm hdef hstay]
    exact bare_ty_resolved hdef
  have horigin := hm.definition?_eq ((Ty.isResult_congr hty).trans hown)
  have hdef' : (l.refine d).1.definition?.bind (Ty.arm? branch) = some own := by
    rw [horigin, origin_refine_of_other h harm, hdef]
  rw [refine_of_stays hflags harm hdef' hstay, resolved_of_bare_eq hdef' hty,
    withOrigin_of_eq horigin.symm]

/-- An arm that is itself a result becomes its own origin. -/
theorem bare_refine_refine_ne (hl : l.Coherent) (h : l.flags.branch? = some branch)
    (harm : d.arm? branch = none) (hdef : l.definition?.bind (Ty.arm? branch) = some own)
    (hstay : own.givesWay d = false) (hown : own.isResult = true) :
    ((l.refine d).1.refine d).1.bare ≠ (l.refine d).1.bare := by
  intro heq
  have hflags : (l.refine d).1.flags.branch? = some branch := by rw [flags_refine, h]
  have hty : (l.refine d).1.ty.bare = own.bare := by
    rw [refine_of_stays h harm hdef hstay]
    exact bare_ty_resolved hdef
  have horigin : ((l.refine d).1.refine d).1.origin.map Ty.bare = (l.refine d).1.origin.map Ty.bare :=
    congrArg Label.origin heq
  rw [origin_refine_of_other hflags harm, origin_refine_of_other h harm,
    (hl.refine d).definition?_of_result ((Ty.isResult_congr hty).trans hown)] at horigin
  -- the second call keeps the arm as the origin of itself, where the first kept the result
  obtain ⟨result, hresult, hbranch⟩ := Option.bind_eq_some_iff.mp hdef
  rw [hresult, Option.map_some, Option.map_some, hty] at horigin
  exact Ty.bare_ne_of_arm? hbranch (Option.some.inj horigin)

/-- An arm whose type gives way takes the declared type, with the values inside unless it gives
way as a whole. -/
theorem refine_of_gives (h : l.flags.branch? = some branch) (harm : d.arm? branch = none)
    (hdef : l.definition?.bind (Ty.arm? branch) = some own) (hgive : own.givesWay d = true) :
    (l.refine d).1.ty.bare = d.bare ∧
      (l.refine d).2 = if (own.isMaybe || own.isVar) = true then none else some d := by
  rw [refine_of_other h harm]
  generalize hm : (l.resolved branch).withOrigin l.definition? = m
  have hres : m.ty.bare = own.bare := by
    rw [← hm]
    exact bare_ty_resolved hdef
  have hgive' : m.ty.givesWay d = true := (Ty.givesWay_congr hres rfl).trans hgive
  have hwhole : (m.ty.isMaybe || m.ty.isVar) = (own.isMaybe || own.isVar) := by
    rw [Ty.isMaybe_congr hres, Ty.isVar_congr hres]
  cases hw : own.isMaybe || own.isVar with
  | true =>
    rw [adopt_of_whole (hwhole.trans hw)]
    exact ⟨bare_ty_replaceTy d _, rfl⟩
  | false =>
    rw [adopt_of_open (hwhole.trans hw) hgive']
    exact ⟨bare_ty_replaceTy d _, rfl⟩

/-- The second call reads the same type from the origin, and does what the first did. -/
theorem refine_refine_of_gives (hl : l.Coherent) (h : l.flags.branch? = some branch)
    (harm : d.arm? branch = none) (hdef : l.definition?.bind (Ty.arm? branch) = some own)
    (hgive : own.givesWay d = true) :
    ((l.refine d).1.refine d).1.bare = (l.refine d).1.bare ∧
      ((l.refine d).1.refine d).2 = (l.refine d).2 := by
  have hm := hl.refine d
  have hflags : (l.refine d).1.flags.branch? = some branch := by rw [flags_refine, h]
  obtain ⟨hty, hnext⟩ := refine_of_gives h harm hdef hgive
  have horigin := hm.definition?_eq
    ((Ty.isResult_congr hty).trans (Ty.isResult_of_arm?_eq_none harm))
  have hdef' : (l.refine d).1.definition?.bind (Ty.arm? branch) = some own := by
    rw [horigin, origin_refine_of_other h harm, hdef]
  obtain ⟨hty', hnext'⟩ := refine_of_gives hflags harm hdef' hgive
  refine ⟨(hm.refine d).bare_congr hm (hty'.trans hty.symm) (flags_refine d _) ?_, ?_⟩
  · rw [origin_refine_of_other hflags harm, horigin]
  · rw [hnext', hnext]

end Label

/-! ## The second call on values -/

namespace Value

variable {d : Ty} {l : Label} {p : Payload}

/-- The second call changes nothing if it changes neither the label nor the values inside. -/
theorem bare_refine_refine_mk :
    ((Value.refine d ⟨l, p⟩).refine d).bare = (Value.refine d ⟨l, p⟩).bare ↔
      ((l.refine d).1.refine d).1.bare = (l.refine d).1.bare ∧
        ((p.refineFor (l.refine d).2).refineFor ((l.refine d).1.refine d).2).mapLabels Label.bare =
          (p.refineFor (l.refine d).2).mapLabels Label.bare := by
  rw [refine_mk, refine_mk, bare, mapLabels, mapLabels, mk.injEq]

/-- A second refinement of contents changes nothing exactly if it changes no value inside. -/
theorem bare_refine_refine_payload :
    ((p.refine d).refine d).mapLabels Label.bare = (p.refine d).mapLabels Label.bare ↔
      ∀ c ∈ p.slots, ∀ u, d.slot? c.1 = some u →
        ((c.2.refine u).refine u).bare = (c.2.refine u).bare := by
  rw [Payload.mapLabels_eq_mapSlots, Payload.mapLabels_eq_mapSlots, Payload.refine_eq_mapSlots,
    Payload.refine_eq_mapSlots, Payload.mapSlots_mapSlots, Payload.mapSlots_mapSlots,
    Payload.mapSlots_mapSlots]
  constructor
  · intro h c hc u hu
    have hslot := Payload.eq_of_mapSlots_eq h c hc
    simpa [Payload.refineSlot, hu, bare] using hslot
  · intro h
    apply Payload.mapSlots_congr
    intro c hc
    cases hu : d.slot? c.1 with
    | none => simp [Payload.refineSlot, hu]
    | some u => simpa [Payload.refineSlot, hu, bare] using h c hc u hu

theorem Settles.bare_refine_refine {v : Value} (h : v.Settles d) (hv : v.Coherent) :
    ((v.refine d).refine d).bare = (v.refine d).bare := by
  induction h with
  | @unflagged d l p h =>
    apply bare_refine_refine_mk.mpr
    rw [Label.refine_refine_of_whole h]
    exact ⟨rfl, rfl⟩
  | @declared d arm l p branch h harm hty hnest =>
    apply bare_refine_refine_mk.mpr
    have hflags : (l.refine d).1.flags.branch? = some branch := by rw [Label.flags_refine, h]
    have hsame : (l.refine d).1.ty.bare = arm.bare :=
      (Label.bare_ty_refine_of_result h harm).mpr hty
    obtain ⟨hlabel, hnone⟩ := Label.refine_of_arm_ty (hv.here.refine d) hflags harm
      (Label.origin_refine_of_result h harm) hsame hnest
    rw [hnone]
    exact ⟨hlabel, rfl⟩
  | @unresolved d l p branch h harm hdef =>
    apply bare_refine_refine_mk.mpr
    rw [Label.refine_refine_of_unresolved hv.here h harm hdef]
    exact ⟨rfl, rfl⟩
  | @stays d own l p branch h harm hdef hstay hnest =>
    apply bare_refine_refine_mk.mpr
    rw [Label.refine_refine_of_stays hv.here h harm hdef hstay hnest]
    exact ⟨rfl, rfl⟩
  | @givesWay d own l p branch h harm hdef hgive hinside ih =>
    apply bare_refine_refine_mk.mpr
    obtain ⟨hlabel, hnext⟩ := Label.refine_refine_of_gives hv.here h harm hdef hgive
    refine ⟨hlabel, ?_⟩
    rw [hnext, (Label.refine_of_gives h harm hdef hgive).2]
    cases hw : own.isMaybe || own.isVar with
    | true => rfl
    | false =>
      apply bare_refine_refine_payload.mpr
      intro c hc u hu
      exact ih hw c hc u hu (hv.child (Payload.mem_children.mpr ⟨c.1, hc⟩))

theorem settles_of_bare_refine_refine {v : Value} (hv : v.Coherent)
    (h : ((v.refine d).refine d).bare = (v.refine d).bare) : v.Settles d := by
  induction v using Value.induction generalizing d with
  | step l p ih =>
    obtain ⟨hlabel, hpayload⟩ := bare_refine_refine_mk.mp h
    cases hb : l.flags.branch? with
    | none => exact .unflagged hb
    | some branch =>
      cases harm : d.arm? branch with
      | some arm =>
        have hflags : (l.refine d).1.flags.branch? = some branch := by rw [Label.flags_refine, hb]
        obtain ⟨hty, hnest⟩ := Label.arm_ty_of_refine (hv.here.refine d) hflags harm
          (Label.origin_refine_of_result hb harm) (congrArg Label.ty hlabel)
        exact .declared hb harm ((Label.bare_ty_refine_of_result hb harm).mp hty) hnest
      | none =>
        cases hdef : l.definition?.bind (Ty.arm? branch) with
        | none => exact .unresolved hb harm hdef
        | some own =>
          cases hgive : own.givesWay d with
          | false =>
            cases hown : own.isResult with
            | false => exact .stays hb harm hdef hgive hown
            | true =>
              exact absurd hlabel (Label.bare_refine_refine_ne hv.here hb harm hdef hgive hown)
          | true =>
            refine .givesWay hb harm hdef hgive ?_
            intro hw c hc u hu
            have hmem : c.2 ∈ p.children := Payload.mem_children.mpr ⟨c.1, hc⟩
            rw [(Label.refine_refine_of_gives hv.here hb harm hdef hgive).2,
              (Label.refine_of_gives hb harm hdef hgive).2, hw] at hpayload
            exact ih c.2 hmem (hv.child hmem) (bare_refine_refine_payload.mp hpayload c hc u hu)

/-- Refinement is idempotent exactly on the values that settle: a second call against one declared
type leaves type, kind, name, flags, origin and contents of every node of a reachable value as the
first call left them if and only if the value settles at the type. -/
theorem bare_refine_refine_iff_settles {v : Value} (d : Ty) (hv : v.Reachable) :
    ((v.refine d).refine d).bare = (v.refine d).bare ↔ v.Settles d :=
  ⟨settles_of_bare_refine_refine hv.coherent, fun h => h.bare_refine_refine hv.coherent⟩

def openList : Ty := .list .blank (.var .blank "T")

/-- A good arm of an open result, with a list in it. -/
def openArm : Value :=
  (Value.typed openList (.list [.typed (.var .blank "T") (.int 1)])).narrow .ok
    (some (.result .blank openList .str))

/-- The open arm settles at lists of integers: the list gives way, and so does its item. -/
theorem bare_refine_refine_openArm :
    openArm.Reachable ∧ openArm.Settles (.list .blank .int) ∧
      ((openArm.refine (.list .blank .int)).refine (.list .blank .int)).bare =
        (openArm.refine (.list .blank .int)).bare := by
  have hreach : openArm.Reachable := by
    refine .makeArmIn (.typed openList (p := .list [.typed (.var .blank "T") (.int 1)]) ?_)
      (makeArmIn_eq_ok.mpr ⟨rfl, rfl⟩)
    intro w hw
    obtain rfl := List.mem_singleton.mp hw
    exact .typed _ fun w hw => nomatch hw
  have hsettles : openArm.Settles (.list .blank .int) := by
    refine .givesWay rfl rfl rfl ?_ ?_
    · simp [Ty.givesWay, openList, Ty.hasGenerics_list, Ty.hasGenerics_var, Ty.hasGenerics_prim]
    · intro _ c hc u hu
      obtain rfl := List.mem_singleton.mp hc
      exact .unflagged rfl
  exact ⟨hreach, hsettles, (bare_refine_refine_iff_settles _ hreach).mpr hsettles⟩

/-- A good arm of which nothing else is known, with a list of integers in it. -/
def closedArm : Value := (Value.typed (.list .blank .int) (.list [.int 1])).makeArm .ok

/-- The closed arm does not settle at a result whose good arm is open: the first call leaves its
type and records the origin, from which the second call takes the open type. -/
theorem closedArm_not_settled :
    closedArm.Reachable ∧
      ((closedArm.refine (.result .blank openList .str)).refine
        (.result .blank openList .str)).bare ≠
          (closedArm.refine (.result .blank openList .str)).bare := by
  have hreach : closedArm.Reachable := by
    refine .makeArm .ok (.typed _ ?_)
    intro w hw
    obtain rfl := List.mem_singleton.mp hw
    exact .typed _ fun w hw => nomatch hw
  refine ⟨hreach, ?_⟩
  intro h
  cases settles_of_bare_refine_refine hreach.coherent h with
  | unflagged h => contradiction
  | declared h harm hty hnest =>
    cases h
    cases harm
    rcases hty with hty | hty
    · have hstay : (Ty.list .blank .int).givesWay openList = true := hty
      simp [Ty.givesWay, Ty.isMaybe, Ty.isVar, Ty.hasGenerics_list, Ty.hasGenerics_prim] at hstay
    · have hsame : (Ty.list .blank .int).bare = openList.bare := hty
      cases hsame
  | unresolved h harm hdef =>
    cases h
    contradiction
  | stays h harm =>
    cases h
    contradiction
  | givesWay h harm =>
    cases h
    contradiction

end Value

end TypedValues
