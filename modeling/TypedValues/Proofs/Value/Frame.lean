import TypedValues.Proofs.Ty.Openness
import TypedValues.Proofs.Value.Arms
import TypedValues.Proofs.Value.Views

/-!
# What refinement leaves as it is

Refinement rewrites types, what follows from them, and the origins of arms. All else in a value is
left as it is, and so is what the host sees of it as long as no function is in it
(`Value.untyped_project_refine`). And types are rewritten only to get to know them: a value in
which no type is open keeps its types against open declared ones, but for two things that happen
to the outermost value. An arm takes the type that the result it came from names for it, and a
maybe takes any declared type (`Value.refine_of_concrete`).
-/

namespace TypedValues

namespace Value

variable {v : Value}

/-! ## The contents -/

/-- No value inside is of the function kind, the value itself included. -/
def NoFunctions : Value → Prop := Everywhere children fun v => v.kind ≠ .function

/-- Only functions show their types to the host. -/
theorem NoFunctions.project_untyped (h : v.NoFunctions) : v.untyped.project = v.project := by
  induction v using Value.induction with
  | step label payload ih =>
    have hkind : label.kind ≠ .function := h.here
    have hvoid : label.untyped.kind ≠ .function := nofun
    have hpayload : (payload.mapLabels Label.untyped).project = payload.project :=
      Payload.project_mapLabels fun w hw => ih w hw (h.inside w hw)
    rw [untyped, mapLabels, project, project, if_neg hvoid, if_neg hkind, hpayload]

/-- A refined value is the same but for types, kinds, names and origins, and projects to the same
host data if no function is in it before or after. -/
theorem untyped_project_refine (declared : Ty) (v : Value) :
    (v.refine declared).untyped = v.untyped ∧
      (v.NoFunctions → (v.refine declared).NoFunctions →
        (v.refine declared).project = v.project) := by
  refine ⟨untyped_refine declared v, fun hbefore hafter => ?_⟩
  calc (v.refine declared).project
      = (v.refine declared).untyped.project := hafter.project_untyped.symm
    _ = v.untyped.project := by rw [untyped_refine]
    _ = v.project := hbefore.project_untyped

/-- A list of an open type, with an arm in it that is still of its result type. -/
def openItems : Value := typed (.list .blank (.var .blank "T")) (.list [unresolvedArm])

/-- The list comes to know its type and the arm that of its own, and they project as before. -/
theorem project_refine_openItems :
    let known : Ty := .list .blank (.result .blank .int .str)
    openItems.NoFunctions ∧ (openItems.refine known).NoFunctions ∧
      (openItems.refine known).project = openItems.project := by
  intro known
  have hbefore : openItems.NoFunctions := by
    refine .intro (by decide) ?_
    intro w hw
    obtain rfl := List.mem_singleton.mp hw
    exact .of_leaf rfl (by decide)
  have hgive : openItems.label.own.givesWay known = true := by
    show (Ty.list .blank (.var .blank "T")).givesWay known = true
    simp [Ty.givesWay, known, Ty.hasGenerics_list, Ty.hasGenerics_var, Ty.hasGenerics_result,
      Ty.hasGenerics_prim]
  have hnext : (openItems.label.refine known).2 = some known := by
    rw [Label.snd_refine]
    exact if_pos ⟨rfl, hgive⟩
  have hinside : (openItems.refine known).children =
      [unresolvedArm.refine (.result .blank .int .str)] := by
    have hrefine := refine_mk known openItems.label openItems.payload
    rw [hnext] at hrefine
    exact congrArg children hrefine
  have hafter : (openItems.refine known).NoFunctions := by
    refine .intro ?_ ?_
    · rw [kind_refine known ⟨rfl, rfl⟩]
      split <;> decide
    · rw [hinside]
      intro w hw
      obtain rfl := List.mem_singleton.mp hw
      refine .intro ?_ ?_
      · rw [kind_refine _ ⟨rfl, rfl⟩]
        split <;> decide
      · intro u hu
        obtain ⟨_, hin, -⟩ := exists_of_mem_children_refine hu
        contradiction
  exact ⟨hbefore, hafter, (untyped_project_refine known openItems).2 hbefore hafter⟩

end Value

/-! ## Open declared types -/

namespace Ty

variable {t declared : Ty}

theorem isVar_of_closed (h : t.hasGenerics = false) : t.isVar = false := by
  rw [hasGenerics_eq_any, Bool.or_eq_false_iff] at h
  exact h.1

/-- A type without the mark gives way only if it is a maybe. -/
theorem givesWay_of_closed (h : t.hasGenerics = false) : t.givesWay declared = t.isMaybe := by
  rw [givesWay, isVar_of_closed h, h, Bool.or_false, Bool.false_and, Bool.or_false]

/-- A type gives way to an open one only as a whole. -/
theorem givesWay_of_open (h : declared.hasGenerics = true) :
    t.givesWay declared = (t.isMaybe || t.isVar) := by
  simp [givesWay, h]

end Ty

namespace Label

variable {l : Label} {declared : Ty}

/-- A label has a type, stamps aside, with the kind and the name of it. -/
structure Carries (l : Label) (t : Ty) : Prop where
  ty : l.ty.bare = t.bare
  kind : l.kind = .ofTy t
  name : l.name = t.name

/-- The type that an arm has of its own is a type or a part of one that the label has. -/
theorem hasGenerics_own (hty : l.ty.hasGenerics = false)
    (horigin : ∀ t, l.origin = some t → t.hasGenerics = false) : l.own.hasGenerics = false := by
  have hdef (t : Ty) (h : l.definition? = some t) : t.hasGenerics = false := by
    unfold definition? at h
    split at h
    · cases h
      exact hty
    · exact horigin t h
  unfold own
  cases hb : l.flags.branch? with
  | none => exact hty
  | some branch =>
    rw [Option.bind_some]
    cases harm : l.definition?.bind (Ty.arm? branch) with
    | none => exact hty
    | some arm =>
      obtain ⟨result, hresult, harm⟩ := Option.bind_eq_some_iff.mp harm
      have hclosed := hdef result hresult
      exact Bool.eq_false_iff.mpr fun h =>
        Bool.eq_false_iff.mp hclosed (Ty.hasGenerics_of_arm? harm h)

/-- A label whose own type is closed has that type in the end, unless it is a maybe and takes what
it is offered. The values inside are left alone. -/
theorem refine_of_closed (declared : Ty) (hl : l.Coherent) (hown : l.own.hasGenerics = false) :
    (l.refine declared).1.Carries (if l.own.isMaybe then l.offered declared else l.own) ∧
      (l.refine declared).2 = none := by
  have hgive : l.own.givesWay (l.offered declared) = l.own.isMaybe := Ty.givesWay_of_closed hown
  have hty := bare_ty_refine declared l
  rw [hgive] at hty
  have hcoh := hl.refine declared
  refine ⟨⟨hty, ?_, ?_⟩, ?_⟩
  · rw [hcoh.kind_eq, ← Ty.kind_bare, hty, Ty.kind_bare]
  · rw [hcoh.name_eq, ← Ty.name_bare, hty, Ty.name_bare]
  · rw [snd_refine, if_neg]
    rintro ⟨hwhole, hgive'⟩
    rw [hgive] at hgive'
    rw [hgive', Bool.true_or] at hwhole
    contradiction

/-- A value that is no arm takes an open type only as a whole. -/
theorem snd_refine_of_open (hb : l.flags.branch? = none) (hopen : declared.hasGenerics = true) :
    (l.refine declared).2 = none := by
  rw [snd_refine, offered_of_whole hb, Ty.givesWay_of_open hopen, if_neg]
  rintro ⟨hwhole, hgive⟩
  rw [hwhole] at hgive
  contradiction

/-- The recorded type is the own type of the label, and neither open nor a maybe. -/
structure Firm (l : Label) : Prop where
  own : l.own.bare = l.ty.bare
  closed : l.ty.hasGenerics = false
  notMaybe : l.ty.isMaybe = false

namespace Firm

variable {branch : Branch}

theorem givesWay (h : l.Firm) (t : Ty) : l.ty.givesWay t = false := by
  rw [Ty.givesWay_of_closed h.closed, h.notMaybe]

/-- An arm that is a result has another type of its own. -/
theorem isResult (h : l.Firm) (hl : l.Coherent) (hb : l.flags.branch? = some branch) :
    l.ty.isResult = false := by
  cases harm : l.ty.arm? branch with
  | none => exact Ty.isResult_of_arm?_eq_none harm
  | some arm =>
    have hdef := hl.definition?_of_result (Ty.isResult_of_arm? harm)
    have hown := h.own
    rw [own_of_definition hb hdef harm] at hown
    exact absurd hown (Ty.bare_ne_of_arm? harm)

theorem resolved (h : l.Firm) (hb : l.flags.branch? = some branch) : l.resolved branch = l := by
  cases hdef : l.definition?.bind (Ty.arm? branch) with
  | none => exact resolved_of_none hdef
  | some own =>
    obtain ⟨result, hresult, harm⟩ := Option.bind_eq_some_iff.mp hdef
    have hown := h.own
    rw [own_of_definition hb hresult harm] at hown
    exact resolved_of_bare_eq hdef hown.symm

/-- Only the origin of an arm is rewritten, and only by a declared result. -/
theorem refine (h : l.Firm) (hl : l.Coherent) (declared : Ty) :
    l.refine declared = (l, none) ∨ ∃ branch arm, l.flags.branch? = some branch ∧
      declared.arm? branch = some arm ∧
      l.refine declared = (l.withOrigin (some declared), none) := by
  cases hb : l.flags.branch? with
  | none =>
    rw [refine_of_whole hb, adopt_of_stays (h.givesWay declared)]
    exact .inl rfl
  | some branch =>
    cases harm : declared.arm? branch with
    | none =>
      have horigin := hl.definition?_eq (h.isResult hl hb)
      rw [refine_of_other hb harm, h.resolved hb, withOrigin_of_eq horigin.symm,
        adopt_of_stays (h.givesWay declared)]
      exact .inl rfl
    | some arm =>
      refine .inr ⟨branch, arm, rfl, harm, ?_⟩
      rw [refine_of_result hb harm, h.resolved hb, adopt_of_stays]
      exact h.givesWay arm

/-- An arm stays firm if the result that it is recorded to come from names its type. -/
theorem withOrigin (h : l.Firm) (hl : l.Coherent) (hb : l.flags.branch? = some branch) {arm : Ty}
    (harm : declared.arm? branch = some arm) (hty : arm.bare = l.ty.bare) :
    (l.withOrigin (some declared)).Firm := by
  refine ⟨?_, h.closed, h.notMaybe⟩
  have hdef := (hl.withOrigin (some declared)).definition?_eq (h.isResult hl hb)
  rw [own_of_definition (l := l.withOrigin (some declared)) hb hdef harm, ty_withOrigin, hty]

end Firm

/-- Declared types that leave an arm firm at its recorded type: it has that type of its own, and
every declared result but the last names it for the arm. -/
def Steady (declared : List Ty) (l : Label) : Prop :=
  ∀ branch, l.flags.branch? = some branch → l.own.bare = l.ty.bare ∧ l.ty.isMaybe = false ∧
    ∀ d ∈ declared.dropLast, ∀ arm, d.arm? branch = some arm → arm.bare = l.ty.bare

end Label

namespace Value

variable {v : Value} {l : Label} {p : Payload} {declared : List Ty}

def refineAll (declared : List Ty) (v : Value) : Value :=
  declared.foldl (fun w d => w.refine d) v

/-- No recorded type and no origin in the value has the mark of a parameter in its name. -/
def Concrete : Value → Prop :=
  Everywhere children fun v =>
    v.ty.hasGenerics = false ∧ ∀ t, v.origin = some t → t.hasGenerics = false

/-- By induction on the declared types: open ones never reach the values inside. -/
theorem payload_refineAll (hb : v.branch? = none) (hopen : ∀ d ∈ declared, d.hasGenerics = true) :
    (v.refineAll declared).payload = v.payload := by
  induction declared generalizing v with
  | nil => rfl
  | cons d rest ih =>
    obtain ⟨l, p⟩ := v
    have hnext := Label.snd_refine_of_open hb (hopen d List.mem_cons_self)
    have hstep : Value.refine d ⟨l, p⟩ = ⟨(l.refine d).1, p⟩ := by
      rw [refine_mk, hnext, Payload.refineFor]
    have hb' : (Value.mk (l.refine d).1 p).branch? = none := by
      rw [branch?, flags, Label.flags_refine]
      exact hb
    rw [refineAll, List.foldl_cons, hstep]
    exact ih hb' fun e he => hopen e (List.mem_cons_of_mem d he)

/-- By induction on the declared types: each but the last leaves the label firm. -/
theorem refineAll_of_firm (h : l.Firm) (hl : l.Coherent)
    (hnames : ∀ branch, l.flags.branch? = some branch → ∀ d ∈ declared.dropLast, ∀ arm,
      d.arm? branch = some arm → arm.bare = l.ty.bare) :
    ∃ origin, refineAll declared ⟨l, p⟩ = ⟨l.withOrigin origin, p⟩ := by
  induction declared generalizing l with
  | nil => exact ⟨l.origin, rfl⟩
  | cons d rest ih =>
    rw [refineAll, List.foldl_cons, refine_mk]
    cases rest with
    | nil =>
      obtain hstep | ⟨branch, arm, -, -, hstep⟩ := h.refine hl d
      · exact ⟨l.origin, by rw [hstep]; rfl⟩
      · exact ⟨some d, by rw [hstep]; rfl⟩
    | cons e rest =>
      rw [List.dropLast_cons_cons] at hnames
      have hrest (branch : Branch) (hb : l.flags.branch? = some branch) :
          ∀ d ∈ (e :: rest).dropLast, ∀ arm, d.arm? branch = some arm → arm.bare = l.ty.bare :=
        fun d' hd' => hnames branch hb d' (List.mem_cons_of_mem d hd')
      obtain hstep | ⟨branch, arm, hb, harm, hstep⟩ := h.refine hl d
      · rw [hstep]
        exact ih h hl hrest
      · rw [hstep]
        have hty := hnames branch hb d List.mem_cons_self arm harm
        obtain ⟨origin, hrun⟩ := ih (h.withOrigin hl hb harm hty) (hl.withOrigin (some d)) hrest
        exact ⟨origin, hrun⟩

/-- A reachable value in which no type is open, refined against any declared type, keeps all that
is inside, and has its own type in the end, unless that is a maybe, which takes the type that it is
offered. Refined against open types one after the other it keeps its recorded type as well, unless
it is a maybe, as long as an arm is known to come from results that name that type for it. -/
theorem refine_of_concrete (hv : v.Reachable) (hclosed : v.Concrete) :
    (∀ declared, (v.refine declared).payload = v.payload ∧
      (v.refine declared).label.Carries
        (if v.label.own.isMaybe then v.label.offered declared else v.label.own)) ∧
    ∀ declared : List Ty, (∀ d ∈ declared, d.hasGenerics = true) → v.label.Steady declared →
      (v.refineAll declared).payload = v.payload ∧
        (v.ty.isMaybe = false → (v.refineAll declared).ty = v.ty ∧
          (v.refineAll declared).kind = v.kind ∧
          (v.refineAll declared).typeName = v.typeName) := by
  obtain ⟨l, p⟩ := v
  have hl : l.Coherent := hv.coherent.here
  obtain ⟨hty, horigin⟩ := hclosed.here
  refine ⟨fun declared => ?_, fun declared hopen hsteady => ?_⟩
  · have hown := Label.hasGenerics_own hty horigin
    obtain ⟨hlabel, hnext⟩ := Label.refine_of_closed declared hl hown
    rw [refine_mk, hnext]
    exact ⟨rfl, hlabel⟩
  -- from one declared type to the next a firm label changes its origin only
  · have hrun (hfirm : l.Firm) : ∃ origin, refineAll declared ⟨l, p⟩ = ⟨l.withOrigin origin, p⟩ :=
      refineAll_of_firm hfirm hl fun branch hb => (hsteady branch hb).2.2
    cases hb : l.flags.branch? with
    | none =>
      refine ⟨payload_refineAll hb hopen, fun hmaybe => ?_⟩
      have hown : l.own.bare = l.ty.bare := by rw [Label.own_of_whole hb]
      obtain ⟨origin, hrun⟩ := hrun ⟨hown, hty, hmaybe⟩
      rw [hrun]
      exact ⟨rfl, rfl, rfl⟩
    | some branch =>
      obtain ⟨hown, hmaybe, -⟩ := hsteady branch hb
      obtain ⟨origin, hrun⟩ := hrun ⟨hown, hty, hmaybe⟩
      rw [hrun]
      exact ⟨rfl, fun _ => ⟨rfl, rfl, rfl⟩⟩

/-- A good arm of a result of lists, with a list of integers in it. -/
def knownArm : Value :=
  (typed (.list .blank .int) (.list [.int 1])).narrow .ok
    (some (.result .blank (.list .blank .int) .str))

/-- It stays what it is when the result comes to be open in its other arm, and then in both. -/
theorem refine_of_concrete_knownArm :
    let known : Ty := .result .blank (.list .blank .int) (.var .blank "E")
    let unknown : Ty := .result .blank (.var .blank "T") (.var .blank "E")
    knownArm.Reachable ∧ knownArm.Concrete ∧ known.hasGenerics = true ∧ unknown.hasGenerics = true ∧
      knownArm.label.Steady [known, unknown] ∧
      (knownArm.refine unknown).label.Carries (.list .blank .int) ∧
      (knownArm.refineAll [known, unknown]).payload = knownArm.payload ∧
      (knownArm.refineAll [known, unknown]).ty = .list .blank .int := by
  intro known unknown
  have hreach : knownArm.Reachable := by
    refine .makeArmIn (.typed _ (p := .list [.int 1]) ?_) (makeArmIn_eq_ok.mpr ⟨rfl, rfl⟩)
    intro w hw
    obtain rfl := List.mem_singleton.mp hw
    exact .typed _ nofun
  have hint : Ty.int.hasGenerics = false := Ty.hasGenerics_prim .int
  have hlist : (Ty.list .blank .int).hasGenerics = false := by rw [Ty.hasGenerics_list, hint]
  have hclosed : knownArm.Concrete := by
    refine .intro ⟨hlist, ?_⟩ ?_
    · intro t ht
      cases ht
      rw [Ty.hasGenerics_result, hlist, Ty.hasGenerics_prim]
      rfl
    · intro w hw
      obtain rfl := List.mem_singleton.mp hw
      exact .of_leaf rfl ⟨hint, nofun⟩
  have hknown : known.hasGenerics = true := by
    rw [Ty.hasGenerics_result, Ty.hasGenerics_var, Bool.or_true]
  have hopen : unknown.hasGenerics = true := by
    rw [Ty.hasGenerics_result, Ty.hasGenerics_var, Bool.true_or]
  have hsteady : knownArm.label.Steady [known, unknown] := by
    intro branch hb
    cases hb
    refine ⟨rfl, rfl, ?_⟩
    intro d hd arm harm
    obtain rfl := List.mem_singleton.mp hd
    cases harm
    rfl
  obtain ⟨hone, hall⟩ := refine_of_concrete hreach hclosed
  obtain ⟨hpayload, hty⟩ := hall [known, unknown] (by simp [hknown, hopen]) hsteady
  exact ⟨hreach, hclosed, hknown, hopen, hsteady, (hone unknown).2, hpayload, (hty rfl).1⟩

def someInt : Value := typed (.maybe .blank .int) (.int 1)

/-- It is concrete, and becomes a list against the type of lists of a parameter. -/
theorem someInt_takes_openList :
    someInt.Reachable ∧ someInt.Concrete ∧
      (Ty.list .blank (.var .blank "T")).hasGenerics = true ∧
      (someInt.refine (.list .blank (.var .blank "T"))).kind ≠ someInt.kind := by
  have hreach : someInt.Reachable := .typed _ nofun
  refine ⟨hreach, ?_, ?_, ?_⟩
  · refine .of_leaf rfl ⟨?_, nofun⟩
    exact (Ty.hasGenerics_maybe .blank .int).trans (Ty.hasGenerics_prim .int)
  · rw [Ty.hasGenerics_list, Ty.hasGenerics_var]
  · rw [kind_refine _ hreach.coherent.here]
    nofun

end Value

end TypedValues
