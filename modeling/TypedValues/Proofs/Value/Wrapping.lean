import TypedValues.Proofs.Ty.Instantiation
import TypedValues.Proofs.Value.EmptyMaybes
import TypedValues.Proofs.Value.Frame
import TypedValues.Proofs.Value.Instances
import TypedValues.Proofs.Value.Views

/-!
# Filled maybes

A filled maybe has the contents of its element and the type of it, and nothing else. So what comes
out of it is the element without its narrowing, and the element itself exactly if that was not
narrowed (`Value.unwrapSome_filled`).

A maybe takes a declared type as a whole, and what is inside it does not get to know that type. So
a value that was refined while it filled a maybe has the types of the refined value exactly if
refinement moves nothing inside it (`Value.typing_unwrapSome_refine`).
-/

namespace TypedValues

open Outcome

namespace Value

variable {v : Value} {t u : Ty}

def widen (v : Value) : Value := typed v.ty v.payload

theorem unwrapSome_typed (h : t.inner? = some u) (p : Payload) :
    (typed t p).unwrapSome = .ok (typed u p.copy) :=
  unwrapSome_eq_ok.mpr ⟨u, h, rfl, rfl⟩

/-- A copy of upright contents is those contents again. -/
theorem UprightInside.copy_payload (h : v.UprightInside) : v.payload.copy = v.payload := by
  have hwiden : v.widen.UprightInside := .intro (.typed v.ty v.payload) h.inside
  have hkeeps : (Label.ofTy v.ty).dropsPayload = false := Bool.and_false _
  have hcopy := hwiden.copy_eq
  rw [widen, typed, copy, hkeeps] at hcopy
  exact congrArg Value.payload hcopy

theorem bare_typed_congr (h : t.bare = u.bare) (p : Payload) :
    (typed t p).bare = (typed u p).bare := by
  have hlabel : (Label.ofTy t).bare = (Label.ofTy u).bare :=
    (Label.coherent_ofTy t).bare_congr (Label.coherent_ofTy u) h rfl rfl
  rw [typed, typed, bare, mapLabels, mapLabels, hlabel]

theorem widen_bare_eq_iff (h : v.Upright) : v.widen.bare = v.bare ↔ v.flags = .empty := by
  obtain ⟨l, p⟩ := v
  rw [bare, widen, typed, mapLabels, mapLabels, Value.mk.injEq, and_iff_left rfl]
  constructor
  · intro hlabel
    exact (congrArg Label.flags hlabel).symm
  · intro hflags
    have hb : branch? ⟨l, p⟩ = none := congrArg Flags.branch? hflags
    have horigin : l.origin = none := h.origin_eq_none hb
    refine (Label.coherent_ofTy l.ty).bare_congr h.coherent rfl hflags.symm ?_
    rw [horigin]
    rfl

/-- A maybe of the type of a value that is filled with it gives it back without its narrowing. -/
theorem exists_unwrapSome_typed (hv : v.UprightInside) (ht : t.inner? = some u)
    (hu : u.bare = v.ty.bare) :
    ∃ w, (typed t v.payload).unwrapSome = .ok w ∧ w.bare = v.widen.bare := by
  refine ⟨_, unwrapSome_typed ht v.payload, ?_⟩
  rw [hv.copy_payload, bare_typed_congr hu, widen]

theorem inner?_maybe (t : Ty) (interner : Interner) :
    ∃ u, (Intern.maybe t interner).1.inner? = some u ∧ u.bare = t.bare := by
  have hbare : (Ty.maybe .blank t).bare = (Intern.maybe t interner).1.bare :=
    (Ty.bare_intern _ interner).symm
  obtain ⟨u, hu, heq⟩ := Ty.inner?_congr hbare rfl
  exact ⟨u, hu, heq.symm⟩

/-- A value that fills a new maybe, or a maybe of its type that is there, always comes out of it
again, with its type and its contents and without its narrowing: so it is the value itself,
up to stamps, exactly if that was neither an empty maybe nor an arm of a result. -/
theorem unwrapSome_filled (hv : v.Reachable) :
    (∀ interner, ∃ w, (makeSome v interner).1.unwrapSome = .ok w ∧ w.bare = v.widen.bare) ∧
      (∀ (m : Value) t, m.ty.inner? = some t → t.bare = v.ty.bare →
        ∃ filled w, m.toSome v = .ok filled ∧ filled.unwrapSome = .ok w ∧
          w.bare = v.widen.bare) ∧
      (v.widen.bare = v.bare ↔ v.flags = .empty) := by
  refine ⟨?_, ?_, widen_bare_eq_iff hv.uprightInside.here⟩
  · intro interner
    obtain ⟨u, hu, hbare⟩ := inner?_maybe v.ty interner
    exact exists_unwrapSome_typed hv.uprightInside hu hbare
  · intro m t ht hbare
    have hkind : Kind.ofTy m.ty = .maybe := Kind.ofTy_eq_maybe.mpr (Ty.isMaybe_of_inner? ht)
    obtain ⟨w, hw, hwiden⟩ := exists_unwrapSome_typed hv.uprightInside ht hbare
    exact ⟨_, w, typedAs_eq_ok.mpr ⟨hkind, rfl⟩, hw, hwiden⟩

/-- Two attempts, one of which failed; of that it is not known which result it came from. -/
def attempts : Value :=
  typed (.list .blank (.result .blank .int .str))
    (.list [(int 1).narrow .ok (some (.result .blank .int .str)), (str "gone").makeArm .err])

/-- Arms inside a value that fills a maybe keep their narrowing. -/
theorem unwrapSome_attempts :
    attempts.Reachable ∧
      ∃ w, (makeSome attempts (.empty 0)).1.unwrapSome = .ok w ∧ w.bare = attempts.bare := by
  have hint : (int 1).Reachable := .typed .int (List.forall_mem_nil _)
  have hstr : (str "gone").Reachable := .typed .str (List.forall_mem_nil _)
  have hok : ((int 1).narrow .ok (some (.result .blank .int .str))).Reachable :=
    .makeArmIn hint (t := .result .blank .int .str) rfl
  have hreach : attempts.Reachable :=
    .typed _ (List.forall_mem_cons.mpr ⟨hok, List.forall_mem_singleton.mpr (.makeArm .err hstr)⟩)
  obtain ⟨hnew, -, hsame⟩ := unwrapSome_filled hreach
  obtain ⟨w, hw, hwiden⟩ := hnew (.empty 0)
  exact ⟨hreach, w, hw, hwiden.trans (hsame.mpr rfl)⟩

/-- An empty maybe of integers that fills a maybe comes out as a maybe that is not empty. -/
theorem unwrapSome_emptyOf_int :
    (emptyOf .int).Constructed ∧ (emptyOf .int).isNone = true ∧
      ∃ w, (makeSome (emptyOf .int) (.empty 0)).1.unwrapSome = .ok w ∧ w.isNone = false :=
  ⟨constructed_emptyOf .int, rfl, _, rfl, rfl⟩

end Value

/-! ## Refined inside a maybe -/

/-- A label stands where a type is declared: it records the type, or an arm of it that is no
result itself. -/
def Label.Stands (t : Ty) (l : Label) : Prop :=
  ∃ own, l.Records t own ∧ (l.flags.branch? = none ∨ own.isResult = false)

/-- Every value right inside contents stands where the type declares one. -/
def Payload.StandsIn (t : Ty) (p : Payload) : Prop :=
  ∀ c ∈ p.slots, ∃ u, t.slot? c.1 = some u ∧ c.2.label.Stands u

/-- Refinement against a type moves no type inside contents. -/
def Payload.KeepsTypes (declared : Ty) (p : Payload) : Prop :=
  ∀ c ∈ p.slots, (refineSlot declared c.1 c.2).typing = c.2.typing

section Instances

variable {bindings : Bindings} {t u d : Ty} {l : Label} {p : Payload} {v : Value}
  (hlegible : t.Legible) (hbound : Everywhere Ty.parts (Ty.BoundUnmarked bindings) t)
  (hd : d.bare = (t.instantiate bindings).bare)

include hlegible hbound hd

/-- What stands where a type is declared is offered the instance of its own type by the instance of
that type. -/
theorem Label.Stands.exists_own (h : l.Stands t) (hl : l.Coherent) :
    ∃ own : Ty, l.ty.bare = own.bare ∧ l.own.bare = own.bare ∧
      (l.offered d).bare = (own.instantiate bindings).bare ∧ own.Legible ∧
      Everywhere Ty.parts (Ty.BoundUnmarked bindings) own := by
  obtain ⟨own, hrec, hflat⟩ := h
  cases hrec with
  | whole hflags hty =>
    refine ⟨t, hty, ?_, ?_, hlegible, hbound⟩
    · rw [own_of_whole hflags, hty]
    · rw [offered_of_whole hflags, hd]
  | @arm branch _ origin hflags harm horigin hbare hty =>
    have hmem : own ∈ t.parts := Ty.mem_parts_of_arm? harm
    have hresult : l.ty.isResult = false := by
      rw [hflags] at hflat
      rw [Ty.isResult_congr hty]
      exact hflat.resolve_left nofun
    have hdef : l.definition? = some origin := (hl.definition?_eq hresult).trans horigin
    obtain ⟨own', hown', heq⟩ := Ty.arm?_congr hbare.symm harm
    obtain ⟨e, he, hinst⟩ := Ty.arm?_instance hd harm
    refine ⟨own, hty, ?_, ?_, hlegible.part hmem, hbound.inside own hmem⟩
    · rw [own_of_definition hflags hdef hown', heq]
    · rw [offered_of_arm hflags he, hinst]

/-- A value that stands where a type is declared keeps its types against the instance of that type
exactly if its own is closed. -/
theorem Value.typing_refine_eq_iff (h : v.label.Stands t) (hl : v.label.Coherent) :
    (v.refine d).typing = v.typing ↔ v.ty.hasVar = false := by
  obtain ⟨l, p⟩ := v
  obtain ⟨own, hty, hown, hoffered, hlegible, hbound⟩ := h.exists_own hlegible hbound hd hl
  have hvar : (Value.ty ⟨l, p⟩).hasVar = own.hasVar := Ty.hasVar_congr hty
  rw [hvar]
  cases hopen : own.hasVar with
  | true =>
    have hgive : l.own.givesWay (l.offered d) = true :=
      (Ty.givesWay_congr hown rfl).trans (Ty.givesWay_instance hlegible hbound hoffered hopen)
    have hclosed : (l.offered d).hasGenerics = false :=
      Ty.hasGenerics_instance hlegible hbound hoffered
    have hmark : own.hasGenerics = true := by rw [Ty.hasGenerics_eq_hasVar hlegible, hopen]
    refine iff_of_false ?_ nofun
    intro heq
    -- it has the type that it was offered, which is closed, and had an open one
    have htypes : (l.offered d).bare = own.bare :=
      calc (l.offered d).bare
          = (l.refine d).1.ty.bare := by rw [Label.bare_ty_refine, if_pos hgive]
        _ = (Value.refine d ⟨l, p⟩).typing.ty := by rw [ty_typing, refine_mk]; rfl
        _ = (Value.typing ⟨l, p⟩).ty := by rw [heq]
        _ = l.ty.bare := ty_typing ⟨l, p⟩
        _ = own.bare := hty
    rw [Ty.hasGenerics_congr htypes, hmark] at hclosed
    contradiction
  | false =>
    have hclosed : l.own.hasGenerics = false := by
      rw [Ty.hasGenerics_congr hown, Ty.hasGenerics_eq_hasVar hlegible, hopen]
    obtain ⟨hcarries, hnext⟩ := Label.refine_of_closed d hl hclosed
    refine iff_of_true ?_ rfl
    rw [refine_mk, hnext]
    refine (typing_mk_eq_iff ?_).mpr rfl
    rw [hcarries.ty]
    split
    · rw [← Ty.bare_eq_instance hoffered hopen, hty]
    · rw [hown, hty]

/-- Against an instance of its type, a value that is no arm keeps the types in its contents exactly
if it takes the instance as a whole, is closed, or has no values inside that move. -/
theorem Value.typing_refine_instance_iff (hb : v.branch? = none) (hty : v.ty.bare = t.bare) :
    (typed d v.payload).typing = (v.refine d).typing ↔
      t.isMaybe = true ∨ t.isVar = true ∨ t.hasVar = false ∨ v.payload.KeepsTypes d := by
  obtain ⟨l, p⟩ := v
  have hroot : (Label.ofTy d).ty.bare = (l.adopt d).1.ty.bare :=
    (Label.bare_ty_adopt_instance hlegible hbound hd hty).symm
  rw [refine_mk, Label.refine_of_whole hb, typed, typing_mk_eq_iff hroot,
    Label.snd_adopt_instance hlegible hbound hd hty]
  split
  · next hopen =>
    obtain ⟨hwhole, hvar⟩ := hopen
    rw [Bool.or_eq_false_iff] at hwhole
    rw [hwhole.1, hwhole.2, hvar, eq_comm, Payload.refineFor, Payload.typing_refine_eq_iff]
    simp [Payload.KeepsTypes]
  · next hkeeps =>
    refine iff_of_true rfl ?_
    rw [not_and_or, Bool.not_eq_false, Bool.or_eq_true, Bool.not_eq_true, or_assoc] at hkeeps
    rcases hkeeps with h | h | h
    · exact .inl h
    · exact .inr (.inl h)
    · exact .inr (.inr (.inl h))

/-- Where every value right inside stands where the type declares one, none of them moves exactly if
the types of all of them are closed. -/
theorem Payload.StandsIn.keepsTypes_iff (h : p.StandsIn t)
    (hp : ∀ w ∈ p.children, w.label.Coherent) :
    p.KeepsTypes d ↔ ∀ w ∈ p.children, w.ty.hasVar = false := by
  have hslot (c : Slot × Value) (hc : c ∈ p.slots) :
      (refineSlot d c.1 c.2).typing = c.2.typing ↔ c.2.ty.hasVar = false := by
    obtain ⟨u, hu, hstands⟩ := h c hc
    have hmem : u ∈ t.parts := Ty.mem_parts_of_slot? hu
    obtain ⟨e, he, heq⟩ := Ty.slot?_instance hd hu
    rw [refineSlot, he]
    exact Value.typing_refine_eq_iff (hlegible.part hmem) (hbound.inside u hmem) heq hstands
      (hp c.2 (Payload.mem_children.mpr ⟨c.1, hc⟩))
  rw [children_eq_map_slots, List.forall_mem_map]
  exact forall₂_congr hslot

end Instances

namespace Value

variable {bindings : Bindings} {v : Value} {t u d : Ty}

theorem typing_typed_congr (h : t.bare = u.bare) (p : Payload) :
    (typed t p).typing = (typed u p).typing :=
  (typing_mk_eq_iff h).mpr rfl

/-- A filled maybe takes a declared maybe as a whole, and gives back its contents at the inner type
of that. -/
theorem exists_unwrapSome_refine_typed {m declared inner : Ty} (hm : m.isMaybe = true)
    (hinner : declared.inner? = some inner) (p : Payload) :
    ∃ u : Ty, u.bare = inner.bare ∧
      ((typed m p).refine declared).unwrapSome = .ok (typed u p.copy) := by
  have hwhole : ((Label.ofTy m).ty.isMaybe || (Label.ofTy m).ty.isVar) = true := by
    rw [show (Label.ofTy m).ty.isMaybe = true from hm, Bool.true_or]
  have hty := Label.bare_ty_replaceTy declared (Label.ofTy m)
  obtain ⟨u, hu, heq⟩ := Ty.inner?_congr hty.symm hinner
  refine ⟨u, heq.symm, ?_⟩
  rw [typed, refine_mk, Label.refine_of_whole rfl, Label.adopt_of_whole hwhole]
  refine unwrapSome_eq_ok.mpr ⟨u, hu, ?_, rfl⟩
  rw [isNone, flags, Label.flags_replaceTy]
  rfl

theorem exists_unwrapSome_refine (interner interner' : Interner) (hv : v.UprightInside) (d : Ty) :
    ∃ u : Ty, u.bare = d.bare ∧
      ((makeSome v interner).1.refine (Intern.maybe d interner').1).unwrapSome =
        .ok (typed u v.payload) := by
  obtain ⟨_, hfilled, -⟩ := inner?_maybe v.ty interner
  obtain ⟨inner, hinner, hbare⟩ := inner?_maybe d interner'
  obtain ⟨u, hu, hunwrap⟩ :=
    exists_unwrapSome_refine_typed (Ty.isMaybe_of_inner? hfilled) hinner v.payload
  rw [hv.copy_payload] at hunwrap
  exact ⟨u, hu.trans hbare, hunwrap⟩

/-- A value that fills a maybe which is then refined against an instance of its type comes out with
the instance for its type, and the values inside have the types that they had. Refined against the
instance itself, the value has it for its type too. So the two have the same types at every node
exactly if the type is a maybe or a parameter or closed, or no value inside moves; and where those
right inside stand where the type declares them, they do not move exactly if their types are
closed. -/
theorem typing_unwrapSome_refine (interner interner' interner'' : Interner) (hlegible : t.Legible)
    (hbound : Everywhere Ty.parts (Ty.BoundUnmarked bindings) t) (hv : v.Reachable)
    (hb : v.branch? = none) (hty : v.ty.bare = t.bare) :
    let d := (t.substitute bindings interner).1
    ∃ w, ((makeSome v interner').1.refine (Intern.maybe d interner'').1).unwrapSome = .ok w ∧
      w.typing = (typed d v.payload).typing ∧ (v.refine d).ty.bare = d.bare ∧
      (w.typing = (v.refine d).typing ↔
        t.isMaybe = true ∨ t.isVar = true ∨ t.hasVar = false ∨ v.payload.KeepsTypes d) ∧
      (v.payload.StandsIn t →
        (v.payload.KeepsTypes d ↔ ∀ w ∈ v.children, w.ty.hasVar = false)) := by
  intro d
  have hd : d.bare = (t.instantiate bindings).bare := Ty.bare_substitute bindings t interner
  obtain ⟨u, hu, hunwrap⟩ := exists_unwrapSome_refine interner' interner'' hv.uprightInside d
  have htyping := typing_typed_congr hu v.payload
  refine ⟨_, hunwrap, htyping, ?_, ?_, ?_⟩
  · obtain ⟨l, p⟩ := v
    rw [refine_mk, Label.refine_of_whole hb]
    exact Label.bare_ty_adopt_instance hlegible hbound hd hty
  · rw [htyping]
    exact typing_refine_instance_iff hlegible hbound hd hb hty
  · intro hstands
    exact hstands.keepsTypes_iff hlegible hbound hd fun w hw => (hv.coherent.inside w hw).here

/-- A reference to something of a type that is open; the key that it is by is not. -/
def reference : Ty := .struct .blank "Ref" [.var .blank "T"] [("key", .int)]

/-- The value inside has a closed type, and so has the same type either way. -/
theorem typing_unwrapSome_reference :
    let v := typed reference (.map [("key", int 7)])
    let d := (reference.substitute [("T", .str)] (.empty 0)).1
    reference.Legible ∧ Everywhere Ty.parts (Ty.BoundUnmarked [("T", .str)]) reference ∧
      v.Reachable ∧
      ∃ w, ((makeSome v (.empty 0)).1.refine (Intern.maybe d (.empty 0)).1).unwrapSome = .ok w ∧
        w.typing = (v.refine d).typing := by
  intro v d
  have hall {p : Ty → Prop} (hstruct : p reference) (hvar : p (.var .blank "T")) (hint : p .int) :
      Everywhere Ty.parts p reference := by
    refine .intro hstruct (List.forall_mem_cons.mpr ⟨.of_leaf rfl hvar, ?_⟩)
    exact List.forall_mem_singleton.mpr (.of_leaf rfl hint)
  have hshows : reference.ShowsFields := fun _ => by simp
  have hlegible : reference.Legible := ⟨hall (by decide) rfl rfl, hall hshows trivial trivial⟩
  have hbound : Everywhere Ty.parts (Ty.BoundUnmarked [("T", .str)]) reference :=
    hall trivial ⟨.str, rfl, Ty.hasGenerics_prim .str⟩ trivial
  have hreach : v.Reachable :=
    .typed _ (List.forall_mem_singleton.mpr (.typed _ (List.forall_mem_nil _)))
  obtain ⟨w, hw, -, -, hsame, hstands⟩ := typing_unwrapSome_refine (.empty 0) (.empty 0) (.empty 0)
    hlegible hbound hreach rfl rfl
  have hkey : v.payload.StandsIn reference :=
    List.forall_mem_singleton.mpr ⟨.int, rfl, .int, .whole rfl rfl, .inl rfl⟩
  have hkeeps : v.payload.KeepsTypes d :=
    (hstands hkey).mpr (List.forall_mem_singleton.mpr (Ty.hasVar_prim .int))
  exact ⟨hlegible, hbound, hreach, w, hw, hsame.mpr (.inr (.inr (.inr hkeeps)))⟩

/-- A list with an item of its open element type. -/
def openNumbers : Value :=
  typed (.list .blank (.var .blank "T")) (.list [typed (.var .blank "T") (.int 1)])

/-- Refined against lists of integers the item is an integer; coming out of a maybe that was refined
it is still open. -/
theorem typing_unwrapSome_openNumbers :
    let t : Ty := .list .blank (.var .blank "T")
    let d := (t.substitute [("T", .int)] (.empty 0)).1
    t.Legible ∧ Everywhere Ty.parts (Ty.BoundUnmarked [("T", .int)]) t ∧ openNumbers.flags = .empty ∧
      openNumbers.RecordedAt t ∧ openNumbers.Reachable ∧
      ∃ w, ((makeSome openNumbers (.empty 0)).1.refine (Intern.maybe d (.empty 0)).1).unwrapSome =
          .ok w ∧ w.typing ≠ (openNumbers.refine d).typing := by
  intro t d
  have hall {p : Ty → Prop} (hlist : p t) (hvar : p (.var .blank "T")) : Everywhere Ty.parts p t :=
    .intro hlist (List.forall_mem_singleton.mpr (.of_leaf rfl hvar))
  have hlegible : t.Legible := ⟨hall rfl rfl, hall trivial trivial⟩
  have hbound : Everywhere Ty.parts (Ty.BoundUnmarked [("T", .int)]) t :=
    hall trivial ⟨.int, rfl, Ty.hasGenerics_prim .int⟩
  have hd : d.bare = (t.instantiate [("T", .int)]).bare := Ty.bare_substitute _ t (.empty 0)
  have hreach : openNumbers.Reachable :=
    .typed _ (List.forall_mem_singleton.mpr (.typed _ (List.forall_mem_nil _)))
  have hrec : openNumbers.RecordedAt t := by
    refine recordedAt_mk.mpr ⟨t, .whole rfl rfl, List.forall_mem_singleton.mpr ⟨_, rfl, ?_⟩⟩
    exact recordedAt_mk.mpr ⟨_, .whole rfl rfl, List.forall_mem_nil _⟩
  have hitem : openNumbers.payload.StandsIn t :=
    List.forall_mem_singleton.mpr ⟨_, rfl, _, .whole rfl rfl, .inl rfl⟩
  obtain ⟨u, hu, hw⟩ := exists_unwrapSome_refine (.empty 0) (.empty 0) hreach.uprightInside d
  refine ⟨hlegible, hbound, rfl, hrec, hreach, _, hw, ?_⟩
  rw [typing_typed_congr hu, ne_eq, typing_refine_instance_iff hlegible hbound hd rfl rfl,
    hitem.keepsTypes_iff hlegible hbound hd fun w hw => (hreach.coherent.inside w hw).here]
  rintro (h | h | h | h)
  · contradiction
  · contradiction
  · simp [t] at h
  · have hclosed : (Ty.var .blank "T").hasVar = false := h _ (List.mem_singleton_self _)
    simp at hclosed

end Value

end TypedValues
