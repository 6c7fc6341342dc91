import TypedValues.Proofs.Ty.Instantiation
import TypedValues.Proofs.Value.Labels
import TypedValues.Value.Narrowing

/-!
# Refinement against an instance

A value is recorded at a type if the types recorded in it are the components of that type, at
every depth. Refined against an instance of the type whose parameters are all bound to types
without the mark of a parameter, it is recorded at the instance: no open type is left behind in
it, and none is replaced by a type of another place.
-/

namespace TypedValues

namespace Label

/-- A label records a type, or an arm of a result type that it keeps as its origin; `own` is the
type of the value itself. -/
inductive Records (l : Label) (t : Ty) : (own : Ty) → Prop
  | whole (hflags : l.flags.branch? = none) (hty : l.ty.bare = t.bare) : Records l t t
  | arm {branch : Branch} {arm origin : Ty} (hflags : l.flags.branch? = some branch)
      (harm : t.arm? branch = some arm) (horigin : l.origin = some origin)
      (hbare : origin.bare = t.bare) (hty : l.ty.bare = arm.bare) : Records l t arm

theorem Records.congr {l : Label} {t u own : Ty} (h : l.Records t own) (htu : t.bare = u.bare) :
    ∃ own', l.Records u own' ∧ own.bare = own'.bare := by
  cases h with
  | whole hflags hty => exact ⟨u, .whole hflags (hty.trans htu), htu⟩
  | arm hflags harm horigin hbare hty =>
    obtain ⟨arm', harm', heq⟩ := Ty.arm?_congr htu harm
    exact ⟨arm', .arm hflags harm' horigin (hbare.trans htu) (hty.trans heq), heq⟩

end Label

/-- The types recorded in a value are the components of a type: each value inside has a slot that
the type of the value declares, and is recorded at what is declared for it. -/
inductive Value.RecordedAt : Ty → Value → Prop
  | intro {t own : Ty} {label : Label} {payload : Payload} (hlabel : label.Records t own)
      (hslots : ∀ c ∈ payload.slots, (own.slot? c.1).isSome = true)
      (hinside : ∀ c ∈ payload.slots, ∀ u, own.slot? c.1 = some u → RecordedAt u c.2) :
      RecordedAt t ⟨label, payload⟩

namespace Ty

/-- No arm of a result is itself a result. -/
def FlatResults : Ty → Prop :=
  Everywhere parts fun t => ∀ branch arm, t.arm? branch = some arm → arm.isResult = false

/-- A type is instantiated for good: it is legible and its results are flat, and every parameter
in it is bound to a type without the mark of a parameter. -/
structure Closes (bindings : Bindings) (t : Ty) : Prop where
  legible : t.Legible
  flat : t.FlatResults
  bound : Everywhere parts (BoundUnmarked bindings) t

variable {bindings : Bindings} {t u d : Ty}

theorem Closes.part (h : t.Closes bindings) (hu : u ∈ t.parts) : u.Closes bindings :=
  ⟨h.legible.part hu, h.flat.inside u hu, h.bound.inside u hu⟩

theorem hasGenerics_instance (hlegible : t.Legible)
    (hbound : Everywhere parts (BoundUnmarked bindings) t)
    (hd : d.bare = (t.instantiate bindings).bare) : d.hasGenerics = false := by
  rw [hasGenerics_congr hd]
  exact hasGenerics_instantiate bindings hlegible.unmarked hbound

/-- An open type gives way to its instance. -/
theorem givesWay_instance (hlegible : t.Legible)
    (hbound : Everywhere parts (BoundUnmarked bindings) t)
    (hd : d.bare = (t.instantiate bindings).bare) (hvar : t.hasVar = true) :
    t.givesWay d = true := by
  have hopen : t.hasGenerics = true := by rw [hasGenerics_eq_hasVar hlegible, hvar]
  simp [givesWay, hopen, hasGenerics_instance hlegible hbound hd]

/-- A closed type is its own instance. -/
theorem bare_eq_instance (hd : d.bare = (t.instantiate bindings).bare) (hvar : t.hasVar = false) :
    t.bare = d.bare := by
  rw [hd, instantiate_of_closed bindings hvar]

theorem slot?_instance {s : Slot} (hd : d.bare = (t.instantiate bindings).bare)
    (hs : t.slot? s = some u) : ∃ e, d.slot? s = some e ∧ e.bare = (u.instantiate bindings).bare := by
  have hvar : t.isVar = false := isVar_of_mem_parts (mem_parts_of_slot? hs)
  have hinst : (t.instantiate bindings).slot? s = some (u.instantiate bindings) := by
    rw [instantiate_eq_mapParts bindings hvar, slot?_mapParts, hs, Option.map_some]
  obtain ⟨e, he, heq⟩ := slot?_congr hd.symm hinst
  exact ⟨e, he, heq.symm⟩

theorem arm?_instance {branch : Branch} {arm : Ty} (hd : d.bare = (t.instantiate bindings).bare)
    (harm : t.arm? branch = some arm) :
    ∃ e, d.arm? branch = some e ∧ e.bare = (arm.instantiate bindings).bare := by
  have hvar : t.isVar = false := isVar_of_mem_parts (mem_parts_of_arm? harm)
  have hinst : (t.instantiate bindings).arm? branch = some (arm.instantiate bindings) := by
    rw [instantiate_eq_mapParts bindings hvar, arm?_mapParts, harm, Option.map_some]
  obtain ⟨e, he, heq⟩ := arm?_congr hd.symm hinst
  exact ⟨e, he, heq.symm⟩

end Ty

/-! ## Values inside -/

/-- Every value inside contents has a slot that a type declares, and is recorded at what is
declared for it. -/
def Payload.RecordedIn (t : Ty) (p : Payload) : Prop :=
  ∀ c ∈ p.slots, ∃ u, t.slot? c.1 = some u ∧ c.2.RecordedAt u

theorem Value.recordedAt_mk {t : Ty} {l : Label} {p : Payload} :
    RecordedAt t ⟨l, p⟩ ↔ ∃ own, l.Records t own ∧ p.RecordedIn own := by
  constructor
  · rintro (⟨hlabel, hslots, hinside⟩)
    refine ⟨_, hlabel, ?_⟩
    intro c hc
    obtain ⟨u, hu⟩ := Option.isSome_iff_exists.mp (hslots c hc)
    exact ⟨u, hu, hinside c hc u hu⟩
  · rintro ⟨own, hlabel, hinside⟩
    refine ⟨hlabel, ?_, ?_⟩
    · intro c hc
      obtain ⟨u, hu, -⟩ := hinside c hc
      rw [hu, Option.isSome_some]
    · intro c hc u hu
      obtain ⟨u', hu', hrec⟩ := hinside c hc
      rw [hu] at hu'
      cases hu'
      exact hrec

/-- What a value is recorded at is known up to stamps only. -/
theorem Value.RecordedAt.congr {v : Value} {t u : Ty} (h : v.RecordedAt t) (htu : t.bare = u.bare) :
    v.RecordedAt u := by
  induction h generalizing u with
  | intro hlabel hslots hinside ih =>
    obtain ⟨own', hlabel', hown⟩ := hlabel.congr htu
    refine recordedAt_mk.mpr ⟨own', hlabel', ?_⟩
    intro c hc
    obtain ⟨w, hw⟩ := Option.isSome_iff_exists.mp (hslots c hc)
    obtain ⟨w', hw', heq⟩ := Ty.slot?_congr hown hw
    exact ⟨w', hw', ih c hc w hw heq⟩

theorem Payload.RecordedIn.congr {p : Payload} {t u : Ty} (h : p.RecordedIn t)
    (htu : t.bare = u.bare) : p.RecordedIn u := by
  intro c hc
  obtain ⟨w, hw, hrec⟩ := h c hc
  obtain ⟨w', hw', heq⟩ := Ty.slot?_congr htu hw
  exact ⟨w', hw', hrec.congr heq⟩

/-- Only a list, a map or a struct has values inside. -/
theorem Payload.RecordedIn.slots_eq_nil {p : Payload} {t : Ty} (h : p.RecordedIn t)
    (ht : (t.isMaybe || t.isVar) = true) : p.slots = [] := by
  apply List.eq_nil_iff_forall_not_mem.mpr
  intro c hc
  obtain ⟨u, hu, -⟩ := h c hc
  cases t with
  | maybe | var => cases hs : c.1 <;> rw [hs] at hu <;> contradiction
  | _ => contradiction

variable {bindings : Bindings}

section Adopting

variable {t d : Ty} {l : Label} (hlegible : t.Legible)
  (hbound : Everywhere Ty.parts (Ty.BoundUnmarked bindings) t)
  (hd : d.bare = (t.instantiate bindings).bare) (hty : l.ty.bare = t.bare)

include hlegible hbound hd hty

/-- A label that adopts the instance of its type, or has to stay, has that instance for its type. -/
theorem Label.bare_ty_adopt_instance : (l.adopt d).1.ty.bare = d.bare := by
  rw [fst_adopt]
  split
  · exact bare_ty_replaceTy d l
  · next hstay =>
    rw [Ty.givesWay_congr hty rfl] at hstay
    have hclosed : t.hasVar = false := Bool.eq_false_iff.mpr fun hopen =>
      hstay (Ty.givesWay_instance hlegible hbound hd hopen)
    rw [hty, Ty.bare_eq_instance hd hclosed]

/-- The values inside are refined if the type is open, but not as a whole. -/
theorem Label.snd_adopt_instance : (l.adopt d).2 =
    if (t.isMaybe || t.isVar) = false ∧ t.hasVar = true then some d else none := by
  have hsame : (l.ty.isMaybe || l.ty.isVar) = (t.isMaybe || t.isVar) := by
    rw [Ty.isMaybe_congr hty, Ty.isVar_congr hty]
  cases hwhole : t.isMaybe || t.isVar with
  | true => simp [adopt_of_whole (hsame.trans hwhole)]
  | false =>
    cases hopen : t.hasVar with
    | true =>
      have hgive := Ty.givesWay_instance hlegible hbound hd hopen
      rw [← Ty.givesWay_congr hty rfl] at hgive
      simp [adopt_of_open (hsame.trans hwhole) hgive]
    | false =>
      have hmark : l.ty.hasGenerics = false := by
        rw [Ty.hasGenerics_congr hty, Ty.hasGenerics_eq_hasVar hlegible, hopen]
      simp [adopt, hsame, hwhole, hmark]

end Adopting

/-- The second step: once a label has adopted the instance, what is inside is recorded there. -/
theorem Label.adopt_instance {own d : Ty} {l : Label} {p : Payload} (hty : l.ty.bare = own.bare)
    (hown : own.Closes bindings) (hd : d.bare = (own.instantiate bindings).bare)
    (hp : p.RecordedIn own)
    (hrefined : ∀ c ∈ p.slots, ∀ u, own.slot? c.1 = some u →
      ∀ e : Ty, e.bare = (u.instantiate bindings).bare → (c.2.refine e).RecordedAt e) :
    (l.adopt d).1.ty.bare = d.bare ∧ (p.refineFor (l.adopt d).2).RecordedIn d := by
  refine ⟨Label.bare_ty_adopt_instance hown.legible hown.bound hd hty, ?_⟩
  rw [Label.snd_adopt_instance hown.legible hown.bound hd hty]
  split
  · intro c hc
    rw [Payload.refineFor, Payload.refine_eq_mapSlots, Payload.slots_mapSlots] at hc
    obtain ⟨c', hc', rfl⟩ := List.mem_map.mp hc
    obtain ⟨u, hu, -⟩ := hp c' hc'
    obtain ⟨e, he, heq⟩ := Ty.slot?_instance hd hu
    refine ⟨e, he, ?_⟩
    rw [Payload.refineSlot, he]
    exact hrefined c' hc' u hu e heq
  · next hkeeps =>
    cases hvar : own.hasVar with
    | false => exact hp.congr (Ty.bare_eq_instance hd hvar)
    | true =>
      -- a type that is adopted as a whole has nothing inside
      have hwhole : (own.isMaybe || own.isVar) = true := by
        rw [← Bool.not_eq_false]
        exact fun hwhole => hkeeps ⟨hwhole, hvar⟩
      intro c hc
      rw [Payload.refineFor, hp.slots_eq_nil hwhole] at hc
      contradiction

theorem Value.RecordedAt.refine {v : Value} {t d : Ty} (hrec : v.RecordedAt t) (hv : v.Coherent)
    (ht : t.Closes bindings) (hd : d.bare = (t.instantiate bindings).bare) :
    (v.refine d).RecordedAt d := by
  induction hrec generalizing d with
  | @intro t own label payload hlabel hslots hinside ih =>
    have hp : payload.RecordedIn own := fun c hc => by
      obtain ⟨u, hu⟩ := Option.isSome_iff_exists.mp (hslots c hc)
      exact ⟨u, hu, hinside c hc u hu⟩
    have hrefined (hown : own.Closes bindings) : ∀ c ∈ payload.slots, ∀ u, own.slot? c.1 = some u →
        ∀ e : Ty, e.bare = (u.instantiate bindings).bare → (c.2.refine e).RecordedAt e :=
      fun c hc u hu e he => ih c hc u hu
        (hv.child (Payload.mem_children.mpr ⟨c.1, hc⟩)) (hown.part (Ty.mem_parts_of_slot? hu)) he
    rw [Value.refine_mk, Label.refine_eq_adopt]
    cases hlabel with
    | whole hflags hty =>
      rw [Label.resolveArm_of_whole hflags]
      obtain ⟨hty', hp'⟩ := Label.adopt_instance hty ht hd hp (hrefined ht)
      exact recordedAt_mk.mpr ⟨d, .whole (by rw [Label.flags_adopt, hflags]) hty', hp'⟩
    | @arm branch _ origin hflags harm horigin hbare hty =>
      have hown : own.Closes bindings := ht.part (Ty.mem_parts_of_arm? harm)
      obtain ⟨e, he, heq⟩ := Ty.arm?_instance hd harm
      -- the origin resolves to the type that the arm has already
      have hdef : label.definition? = some origin := by
        rw [Label.Coherent.definition?_eq hv.here, horigin]
        rw [Ty.isResult_congr hty]
        exact ht.flat.here branch own harm
      obtain ⟨own', hown', heq'⟩ := Ty.arm?_congr hbare.symm harm
      have hresolved : label.resolved branch = label := by
        rw [Label.resolved, hdef, Option.bind_some, hown']
        exact Label.replaceTy_of_bare_eq (hty.trans heq')
      rw [Label.resolveArm_of_result hflags he, hresolved]
      obtain ⟨hty', hp'⟩ :=
        Label.adopt_instance (l := label.withOrigin (some d)) hty hown heq hp (hrefined hown)
      refine recordedAt_mk.mpr ⟨e, .arm ?_ he ?_ rfl hty', hp'⟩
      · rw [Label.flags_adopt, Label.flags_withOrigin, hflags]
      · rw [Label.origin_adopt, Label.origin_withOrigin]

/-- Refinement against an instance is complete. Let a type be legible and its results be flat, and
let every parameter in it be bound to a type without the mark of a parameter. A value recorded at
the type is then, refined against what substitution makes of it, recorded at that. Kind and name
follow the type at every node of it, as in every value that the operations lead to. -/
theorem Value.recordedAt_refine_substitute {v : Value} {t : Ty} (interner : Interner)
    (hlegible : t.Legible) (hflat : t.FlatResults)
    (hbound : Everywhere Ty.parts (Ty.BoundUnmarked bindings) t) (hv : v.Coherent)
    (hrec : v.RecordedAt t) :
    (v.refine (t.substitute bindings interner).1).RecordedAt (t.substitute bindings interner).1 :=
  hrec.refine hv ⟨hlegible, hflat, hbound⟩ (Ty.bare_substitute bindings t interner)

/-- The type of lists of arms whose good arm is open. -/
def openArms : Ty := .list .blank (.result .blank (.var .blank "T") .str)

/-- A list with one good arm in it that is recorded at the open type. -/
def openArmsValue : Value :=
  .typed openArms (.list [(Value.typed (.var .blank "T") (.int 7)).narrow .ok
    (some (.result .blank (.var .blank "T") .str))])

/-- The one arm in the list comes to know its type. -/
theorem Value.recordedAt_openArms :
    openArms.Legible ∧ openArms.FlatResults ∧
      Everywhere Ty.parts (Ty.BoundUnmarked [("T", .int)]) openArms ∧
      openArmsValue.Coherent ∧ openArmsValue.RecordedAt openArms ∧
      (openArmsValue.refine (openArms.substitute [("T", .int)] (.empty 0)).1).RecordedAt
        (openArms.substitute [("T", .int)] (.empty 0)).1 := by
  have hall {p : Ty → Prop} (hlist : p openArms)
      (hres : p (.result .blank (.var .blank "T") .str)) (hvar : p (.var .blank "T"))
      (hstr : p .str) : Everywhere Ty.parts p openArms := by
    refine .intro hlist ?_
    intro u hu
    obtain rfl : u = .result .blank (.var .blank "T") .str := by simpa [openArms, Ty.parts] using hu
    refine .intro hres ?_
    intro w hw
    obtain rfl | rfl : w = .var .blank "T" ∨ w = .str := by simpa [Ty.parts] using hw
    · exact .of_leaf rfl hvar
    · exact .of_leaf rfl hstr
  have hlegible : openArms.Legible := ⟨hall rfl rfl rfl rfl, hall trivial trivial trivial trivial⟩
  have hflat : openArms.FlatResults := by
    refine hall ?_ ?_ ?_ ?_ <;> intro branch arm harm <;> cases branch <;> cases harm <;> rfl
  have hbound : Everywhere Ty.parts (Ty.BoundUnmarked [("T", .int)]) openArms :=
    hall trivial trivial ⟨.int, rfl, Ty.hasGenerics_prim .int⟩ trivial
  have hcoh : openArmsValue.Coherent := by
    refine .intro ⟨rfl, rfl⟩ ?_
    intro v hv
    obtain rfl := List.mem_singleton.mp hv
    exact .of_leaf rfl ⟨rfl, rfl⟩
  have hrec : openArmsValue.RecordedAt openArms := by
    refine recordedAt_mk.mpr ⟨openArms, .whole rfl rfl, ?_⟩
    intro c hc
    obtain rfl := List.mem_singleton.mp hc
    refine ⟨_, rfl, recordedAt_mk.mpr ⟨_, .arm rfl rfl rfl rfl rfl, ?_⟩⟩
    intro c hc
    contradiction
  exact ⟨hlegible, hflat, hbound, hcoh, hrec,
    recordedAt_refine_substitute (.empty 0) hlegible hflat hbound hcoh hrec⟩

end TypedValues
