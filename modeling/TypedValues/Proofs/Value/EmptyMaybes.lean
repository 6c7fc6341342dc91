import TypedValues.Proofs.Value.Arms
import TypedValues.Proofs.Value.Histories

/-!
# Where empty maybes are

Constructors mark nothing as an empty maybe that is not of a maybe type, and copies and arms keep
it so. Refinement does not: an empty maybe gives way to any declared type, and an arm to the type
that its origin names, while the mark stays. `Value.KeepsEmpties` says which declared types leave
every mark on a maybe, and so which runs do (`Value.noneOnMaybes_moments_iff`).
-/

namespace TypedValues

namespace Value

/-! ## Marks on maybes -/

/-- Whatever is marked as an empty maybe is a maybe, at every node. -/
def NoneOnMaybes : Value → Prop :=
  Everywhere children fun v => v.isNone = true → v.kind = .maybe

/-- A declared type leaves every mark on a maybe: a marked value is offered a maybe type and gives
way to it, and so do those inside that are refined. -/
inductive KeepsEmpties : Ty → Value → Prop
  | intro {declared : Ty} {l : Label} {p : Payload}
      (here : l.flags.none = true →
        (l.offered declared).isMaybe = true ∧ l.own.givesWay (l.offered declared) = true)
      (inside : (l.own.isMaybe || l.own.isVar) = false ∧
          l.own.givesWay (l.offered declared) = true →
        ∀ c ∈ p.slots, ∀ u, (l.offered declared).slot? c.1 = some u → KeepsEmpties u c.2) :
      KeepsEmpties declared ⟨l, p⟩

variable {v w : Value} {declared : Ty} {l : Label} {p : Payload}

theorem kind_refine_eq_maybe (declared : Ty) (h : l.Coherent) :
    (l.refine declared).1.kind = .maybe ↔
      (l.offered declared).isMaybe = true ∧ l.own.givesWay (l.offered declared) = true := by
  rw [(h.refine declared).kind_eq, Kind.ofTy_eq_maybe,
    Ty.isMaybe_congr (Label.bare_ty_refine declared l)]
  cases hgive : l.own.givesWay (l.offered declared) with
  | true => simp
  | false =>
    -- a maybe of its own would give way
    have hmaybe : l.own.isMaybe = false := by
      simp only [Ty.givesWay, Bool.or_eq_false_iff] at hgive
      exact hgive.1.1
    simp [hmaybe]

/-- Refinement leaves every mark on a maybe exactly if the declared type does. By induction on the
value, with the values inside that are refined. -/
theorem noneOnMaybes_refine_iff (declared : Ty) (hv : v.Coherent) (hnone : v.NoneOnMaybes) :
    (v.refine declared).NoneOnMaybes ↔ v.KeepsEmpties declared := by
  induction v using Value.induction generalizing declared with
  | step l p ih =>
    have hflags : (l.refine declared).1.flags.none = l.flags.none := by rw [Label.flags_refine]
    have hkind := kind_refine_eq_maybe declared hv.here
    rw [refine_mk, Label.snd_refine]
    constructor
    · intro h
      refine .intro (fun hmark => hkind.mp (h.here (hflags.trans hmark))) ?_
      intro hopen c hc u hu
      have hmem : c.2 ∈ p.children := Payload.mem_children.mpr ⟨c.1, hc⟩
      apply (ih c.2 hmem _ (hv.child hmem) (hnone.inside c.2 hmem)).mp
      apply h.inside
      rw [children, if_pos hopen, Payload.refineFor, Payload.refine_eq_mapSlots]
      exact Payload.mem_children_mapSlots.mpr ⟨c, hc, by rw [Payload.refineSlot, hu]; rfl⟩
    · intro h
      cases h with
      | intro here inside =>
        refine .intro (fun hmark => hkind.mpr (here (hflags.symm.trans hmark))) ?_
        intro w hw
        rw [children] at hw
        split at hw
        · next hopen =>
          rw [Payload.refineFor, Payload.refine_eq_mapSlots] at hw
          obtain ⟨c, hc, rfl⟩ := Payload.mem_children_mapSlots.mp hw
          have hmem : c.2 ∈ p.children := Payload.mem_children.mpr ⟨c.1, hc⟩
          have hkept := hnone.inside c.2 hmem
          -- a value in a slot for which nothing is declared stays as it is
          cases hu : (l.offered declared).slot? c.1 with
          | none =>
            rw [Payload.refineSlot, hu]
            exact hkept
          | some u =>
            rw [Payload.refineSlot, hu]
            exact (ih c.2 hmem _ (hv.child hmem) hkept).mpr (inside hopen c hc u hu)
        · exact hnone.inside w hw

/-! ## Other operations -/

/-- An arm has the mark of the value it is, and its kind. -/
theorem NoneOnMaybes.narrow {branch : Branch} {origin : Option Ty} (h : v.NoneOnMaybes) :
    (v.narrow branch origin).NoneOnMaybes := by
  refine .intro ?_ h.inside
  cases branch <;> exact h.here

theorem Constructed.noneOnMaybes (h : v.Constructed) : v.NoneOnMaybes := by
  induction h with
  | make _ h ih =>
    rcases h.cases with ⟨t, p, rfl, hp⟩ | ⟨t, hmaybe, rfl⟩ | ⟨u, hu, branch, origin, -, rfl⟩
    · refine .intro nofun fun w hw => ?_
      rcases hp w hw with hw | ⟨u, hu, hw⟩
      · exact ih w hw
      · exact (ih u hu).inside w hw
    · exact .of_leaf rfl fun _ => Kind.ofTy_eq_maybe.mpr hmaybe
    · exact (ih u hu).narrow

theorem Constructed.obtained (h : v.Constructed) : v.Obtained := by
  induction h with
  | make _ h ih => exact .make ih h

/-! ## Runs -/

/-- What is done to a value after it was made. -/
inductive Change where
  | copy
  | narrow (branch : Branch)
  | narrowIn (branch : Branch) (t : Ty)
  | refine (declared : Ty)

def Change.run : Change → Value → Except Fault Value
  | copy, v => .ok v.copy
  | narrow branch, v => .ok (makeArm branch v)
  | narrowIn branch t, v => makeArmIn branch v t
  | refine declared, v => .ok (v.refine declared)

/-- The values that a row of changes goes through, up to the first fault. -/
def moments : List Change → Value → List Value
  | [], v => [v]
  | change :: rest, v =>
    v :: match change.run v with
      | .ok w => moments rest w
      | .error _ => []

/-- The refinements in a row of changes: the declared types, with the values that are refined. -/
def refinements : List Change → Value → List (Ty × Value)
  | [], _ => []
  | .refine declared :: rest, v => (declared, v) :: refinements rest (v.refine declared)
  | change :: rest, v =>
    match change.run v with
    | .ok w => refinements rest w
    | .error _ => []

theorem Obtained.change {change : Change} (hv : v.Obtained) (h : change.run v = .ok w) :
    w.Obtained := by
  cases change with
  | copy =>
    cases h
    exact .copy hv
  | narrow branch =>
    cases h
    exact .make (List.forall_mem_singleton.mpr hv) (.makeArm branch v)
  | narrowIn => exact .make (List.forall_mem_singleton.mpr hv) (.makeArmIn h)
  | refine declared =>
    cases h
    exact .refine declared hv

/-- Copies and arms keep marks on maybes. -/
theorem NoneOnMaybes.change {change : Change} (hv : v.Obtained) (hnone : v.NoneOnMaybes)
    (hchange : ∀ declared, change ≠ .refine declared) (h : change.run v = .ok w) :
    w.NoneOnMaybes := by
  cases change with
  | copy =>
    cases h
    rwa [hv.reachable.uprightInside.copy_eq]
  | narrow =>
    cases h
    exact hnone.narrow
  | narrowIn =>
    obtain ⟨-, rfl⟩ := makeArmIn_eq_ok.mp h
    exact hnone.narrow
  | refine declared => exact absurd rfl (hchange declared)

theorem mem_moments (changes : List Change) (v : Value) : v ∈ moments changes v := by
  cases changes with
  | nil => exact List.mem_singleton_self v
  | cons => exact List.mem_cons_self

/-- By induction on the changes: only a refinement can move a mark off a maybe. -/
theorem noneOnMaybes_iff_of_obtained {changes : List Change} (hv : v.Obtained)
    (hnone : v.NoneOnMaybes) : (∀ w ∈ moments changes v, w.NoneOnMaybes) ↔
      ∀ r ∈ refinements changes v, r.2.KeepsEmpties r.1 := by
  induction changes generalizing v with
  | nil => simpa [moments, refinements] using hnone
  | cons change rest ih =>
    rw [moments, List.forall_mem_cons, and_iff_right hnone]
    cases change with
    | refine declared =>
      have hstep := noneOnMaybes_refine_iff declared hv.reachable.coherent hnone
      have hrefined : (v.refine declared).Obtained := .refine declared hv
      rw [refinements, List.forall_mem_cons]
      show (∀ w ∈ moments rest (v.refine declared), w.NoneOnMaybes) ↔ _
      constructor
      · intro h
        have hkept := h _ (mem_moments rest _)
        exact ⟨hstep.mp hkept, (ih hrefined hkept).mp h⟩
      · rintro ⟨hkeeps, h⟩
        exact (ih hrefined (hstep.mpr hkeeps)).mpr h
    | copy | narrow | narrowIn =>
      rw [refinements]
      · split
        · next hrun => exact ih (hv.change hrun) (hnone.change hv (by simp) hrun)
        · simp
      · nofun

/-- Along copies, arms and refinements of a value that constructors made, whatever is marked as an
empty maybe is one at every moment if and only if every refinement on the way leaves the marks on
maybes. -/
theorem noneOnMaybes_moments_iff {changes : List Change} (hv : v.Constructed) :
    (∀ w ∈ moments changes v, w.NoneOnMaybes) ↔
      ∀ r ∈ refinements changes v, r.2.KeepsEmpties r.1 :=
  noneOnMaybes_iff_of_obtained hv.obtained hv.noneOnMaybes

def emptyOf (elem : Ty) : Value := ⟨noneLabel (.maybe .blank elem), .absent⟩

theorem constructed_emptyOf (elem : Ty) : (emptyOf elem).Constructed :=
  .make (List.forall_mem_nil _) (.noneOf (t := .maybe .blank elem) rfl)

/-- An empty maybe of an open type, as an arm that gets to know its result. -/
theorem noneOnMaybes_emptyOf :
    let changes := [Change.narrow .ok, .refine (.result .blank (.maybe .blank .int) .str), .copy]
    (emptyOf (.var .blank "T")).Constructed ∧
      ∀ w ∈ moments changes (emptyOf (.var .blank "T")), w.NoneOnMaybes := by
  intro changes
  have hmade := constructed_emptyOf (.var .blank "T")
  refine ⟨hmade, (noneOnMaybes_moments_iff hmade).mpr ?_⟩
  refine List.forall_mem_singleton.mpr (.intro (fun _ => ⟨rfl, rfl⟩) ?_)
  rintro ⟨hown, -⟩
  contradiction

/-- An empty maybe of integers that is refined against the type of integers is an integer without
contents, still marked as an empty maybe. -/
theorem emptyOf_int_unmarked :
    (emptyOf .int).Constructed ∧
      ¬ ∀ w ∈ moments [.refine .int] (emptyOf .int), w.NoneOnMaybes := by
  have hmade := constructed_emptyOf .int
  refine ⟨hmade, fun h => ?_⟩
  have hrefined : ((emptyOf .int).refine .int).NoneOnMaybes := h _ (by simp [moments, Change.run])
  have hkeeps := (noneOnMaybes_refine_iff .int hmade.obtained.reachable.coherent
    hmade.noneOnMaybes).mp hrefined
  cases hkeeps with
  | intro here inside => cases (here rfl).1

end Value

end TypedValues
