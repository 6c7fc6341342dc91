import TypedValues.Proofs.Value.Constructors
import TypedValues.Proofs.Value.Normalization
import TypedValues.Proofs.Value.Reachable

/-!
# Histories of values

A value comes about by any number of operations: it is made, decoded, read as a key, copied,
refined, changed in its place or taken out of another one. However it came about, every value
inside it is upright (`Value.uprightInside_of_obtained`). More cannot be said: whatever is upright
throughout comes about in some way (`Value.reachable_iff_uprightInside`).
-/

namespace TypedValues

/-! ## Upright labels -/

/-- The label of a value of the type that is no arm. -/
def Label.whole (l : Label) : Label :=
  { Label.ofTy l.ty with flags := { Flags.empty with none := l.flags.none } }

namespace Value

open Outcome

variable {l : Label} {p : Payload} {v : Value}

/-- An upright value is no arm, or an arm with its origin for all that sets it apart from that. -/
theorem Upright.label_eq (h : Upright ⟨l, p⟩) :
    l = l.whole ∨ ∃ branch origin, l = l.whole.narrow branch origin ∧
      ∀ t, origin = some t → t.isResult = true := by
  obtain ⟨⟨hkind, hname⟩, hone, horigin, -⟩ := h
  obtain ⟨ty, kind, name, ⟨ok, err, none⟩, origin⟩ := l
  obtain rfl : kind = .ofTy ty := hkind
  obtain rfl : name = ty.name := hname
  have hresult (t : Ty) (ht : origin = some t) : t.isResult = true := (horigin t ht).2
  cases ok with
  | true =>
    obtain rfl : err = false := hone rfl
    exact .inr ⟨.ok, origin, rfl, hresult⟩
  | false =>
    cases err with
    | true => exact .inr ⟨.err, origin, rfl, hresult⟩
    | false =>
      cases origin with
      | none => exact .inl rfl
      | some t => cases (horigin t rfl).1

theorem Reachable.narrow {branch : Branch} {origin : Option Ty} (h : v.Reachable)
    (horigin : ∀ t, origin = some t → t.isResult = true) : (v.narrow branch origin).Reachable := by
  cases origin with
  | none => exact .makeArm branch h
  | some t => exact .makeArmIn h (makeArmIn_eq_ok.mpr ⟨horigin t rfl, rfl⟩)

/-- An empty maybe takes any type, so that empty values of any type are reachable. -/
theorem reachable_noneLabel (t : Ty) : Reachable ⟨noneLabel t, .absent⟩ := by
  by_cases hmaybe : t.isMaybe = true
  · exact .noneOf (noneOf_eq_ok.mpr ⟨hmaybe, rfl⟩)
  · have hne : (noneLabel (.maybe .blank .int)).ty.bare ≠ t.bare := by
      intro heq
      rw [← Ty.isMaybe_congr heq] at hmaybe
      exact hmaybe rfl
    have hrefine : (noneLabel (.maybe .blank .int)).refine t =
        ((noneLabel (.maybe .blank .int)).retype t, none) := by
      rw [Label.refine_of_whole rfl, Label.adopt_of_whole rfl, Label.replaceTy_of_bare_ne hne]
    have h := (Reachable.noneOf (t := .maybe .blank .int) rfl).refine t
    rw [refine_mk, hrefine] at h
    exact h

theorem Upright.reachable (h : Upright ⟨l, p⟩) (hp : ∀ w ∈ p.children, w.Reachable) :
    Reachable ⟨l, p⟩ := by
  have hwhole : Reachable ⟨l.whole, p⟩ := by
    cases hnone : l.flags.none with
    | false =>
      have heq : l.whole = Label.ofTy l.ty := by
        rw [Label.whole, hnone]
        rfl
      rw [heq]
      exact .typed l.ty hp
    | true =>
      have heq : l.whole = noneLabel l.ty := by
        rw [Label.whole, hnone]
        rfl
      obtain rfl : p = .absent := h.empty hnone
      rw [heq]
      exact reachable_noneLabel l.ty
  rcases h.label_eq with heq | ⟨branch, origin, heq, horigin⟩
  · rwa [heq]
  · rw [heq]
    exact hwhole.narrow horigin

/-- The reachable values are those that are upright throughout. -/
theorem reachable_iff_uprightInside : v.Reachable ↔ v.UprightInside := by
  constructor
  · exact Reachable.uprightInside
  · intro h
    induction v using Value.induction with
    | step label payload ih =>
      exact h.here.reachable fun w hw => ih w hw (h.inside w hw)

/-! ## Values decoded -/

theorem Reachable.typed_payload (h : v.Reachable) (t : Ty) :
    (Value.typed t v.payload).Reachable :=
  .typed t fun _ hw => .child h hw

/-- Decoding makes reachable values, at any type and of any data. -/
theorem reachable_of_decode {t : Ty} {d : HostData} (h : decode t d = .ok v) : v.Reachable := by
  induction t using Ty.induction generalizing d v with
  | step t ih =>
    cases t with
    | prim p => cases (normalizes_prim p d v h).1 <;> exact .typed _ nofun
    | enum =>
      cases (normalizes_enum d v h).1 with
      | member => exact .typed _ nofun
    | list s elem =>
      obtain ⟨items, vs, rfl, hvs, rfl⟩ := decode_list_eq_ok.mp h
      refine .typed _ fun w hw => ?_
      obtain ⟨d, -, hd⟩ := exists_of_mem_forall₂ hvs hw
      exact ih elem (by simp [Ty.parts]) hd
    | map s key value =>
      obtain ⟨entries, rfl, -, -, hvalues⟩ := exists_entries_of_decode h
      refine .typed _ fun w hw => ?_
      obtain ⟨e, he, rfl⟩ := List.mem_map.mp hw
      obtain ⟨d, hd⟩ := hvalues e he
      exact ih value (by simp [Ty.parts]) hd
    -- the names of the fields need not be distinct: whichever of two is kept was decoded
    | struct s name args fields =>
      obtain ⟨entries, fs, rfl, -, hfs, rfl⟩ := decode_struct_eq_ok.mp h
      refine .typed _ fun w hw => ?_
      obtain ⟨e, he, rfl⟩ := List.mem_map.mp hw
      obtain ⟨f, hf, hdecode⟩ := exists_of_mem_forall₂ hfs (Dict.mem_of_mem_ofList he)
      obtain ⟨d, -, hd, -⟩ := decodeField_eq_ok.mp hdecode
      exact ih f.2 (List.mem_append_right args (List.mem_map_of_mem hf)) hd
    | maybe s inner =>
      obtain ⟨rfl, rfl⟩ | ⟨-, w, hw, rfl⟩ := decode_maybe_eq_ok.mp h
      · exact reachable_noneLabel _
      · exact (ih inner (by simp [Ty.parts]) hw).typed_payload _
    | result s ok err =>
      have horigin (t : Ty) (ht : some (.result s ok err) = some t) : t.isResult = true := by
        cases ht
        rfl
      obtain ⟨d', w, rfl, hw, rfl⟩ | ⟨d', w, rfl, hw, rfl⟩ := decode_result_eq_ok.mp h
      · exact (ih ok (by simp [Ty.parts]) hw).narrow horigin
      · exact (ih err (by simp [Ty.parts]) hw).narrow horigin
    | function | var => exact nomatch h

/-! ## Values obtained -/

/-- The values that come about by any operations, one after the other. What is borrowed for a
change is changed by storing another value in its place, and items of a list are moved about at
will. -/
inductive Obtained : Value → Prop
  | make {operands : List Value} {v : Value} (hops : ∀ w ∈ operands, Obtained w)
      (h : Makes operands v) : Obtained v
  | typed {p : Payload} (t : Ty) (hp : ∀ w ∈ p.children, Obtained w) : Obtained (.typed t p)
  | decode {t : Ty} {d : HostData} {v : Value} (h : decode t d = .ok v) : Obtained v
  | key {t : Ty} {text : String} {v : Value} (h : ofKeyText? t text = .ok v) : Obtained v
  | copy {v : Value} (hv : Obtained v) : Obtained v.copy
  | refine {v : Value} (declared : Ty) (hv : Obtained v) : Obtained (v.refine declared)
  | unwrapSome {v w : Value} (hv : Obtained v) (h : v.unwrapSome = .ok w) : Obtained w
  | push {v item w : Value} (hv : Obtained v) (hitem : Obtained item) (h : v.push item = .ok w) :
      Obtained w
  | insert {v key value w : Value} {old : Option Value} (hv : Obtained v) (hvalue : Obtained value)
      (h : v.insert key value = .ok (old, w)) : Obtained w
  | remove {v key w : Value} {old : Option Value} (hv : Obtained v)
      (h : v.remove key = .ok (old, w)) : Obtained w
  | setField {v value w : Value} {name : String} {old : Option Value} (hv : Obtained v)
      (hvalue : Obtained value) (h : v.setField name value = .ok (old, w)) : Obtained w
  | setItems {v : Value} {items items' : List Value} (hv : Obtained v) (h : v.asList = .ok items)
      (hitems : ∀ w ∈ items', Obtained w) : Obtained (v.withPayload (.list items'))
  | overwrite {v old w : Value} {selector : Selector} {step : Step} (hv : Obtained v)
      (h : v.locate selector = .ok (some (step, old))) (hw : Obtained w) :
      Obtained (v.replaceAt step w)
  | inside {v w : Value} (hv : Obtained v) (hw : w ∈ v.children) : Obtained w

theorem Obtained.reachable (h : v.Obtained) : v.Reachable := by
  induction h with
  | make _ h ih =>
    rcases h.cases with ⟨t, p, rfl, hp⟩ | ⟨t, hmaybe, rfl⟩ | ⟨u, hu, branch, origin, horigin, rfl⟩
    · refine .typed t fun w hw => ?_
      rcases hp w hw with hw | ⟨u, hu, hw⟩
      · exact ih w hw
      · exact .child (ih u hu) hw
    · exact reachable_noneLabel t
    · exact (ih u hu).narrow horigin
  | typed t _ ih => exact .typed t ih
  | decode h => exact reachable_of_decode h
  | key h => cases (keyOf_of_ofKeyText? h).1 <;> exact .typed _ nofun
  | copy _ ih => exact .copy ih
  | refine declared _ ih => exact .refine declared ih
  | @unwrapSome v w _ h ih =>
    obtain ⟨t, -, -, rfl⟩ := unwrapSome_eq_ok.mp h
    refine .typed t fun w hw => ?_
    rw [Payload.copy_eq_mapSlots] at hw
    obtain ⟨c, hc, rfl⟩ := Payload.mem_children_mapSlots.mp hw
    exact .copy (.child ih (Payload.mem_children.mpr ⟨c.1, hc⟩))
  | push _ _ h ih ihitem => exact .push ih ihitem h
  | insert _ _ h ih ihvalue => exact .insert ih ihvalue h
  | remove _ h ih => exact .remove ih h
  | setField _ _ h ih ihvalue => exact .setField ih ihvalue h
  | setItems _ h _ ih ihitems =>
    have hp := asList_eq_ok.mp h
    exact (ih.uprightInside.here.withPayload (by simp [hp])).reachable ihitems
  | overwrite _ _ _ ih ihw => exact .replaceAt _ ih ihw
  | inside _ hw ih => exact .child ih hw

/-- However a value came about, it is upright, and so is every value inside it. -/
theorem uprightInside_of_obtained (h : v.Obtained) : v.UprightInside :=
  h.reachable.uprightInside

/-- A list of an open type with an empty maybe as an arm of a result that is not known. -/
def pendingArms : Value :=
  typed (.list .blank (.var .blank "T"))
    (.list [makeArm .ok ⟨noneLabel (.maybe .blank .int), .absent⟩])

/-- Another arm is added to a copy of the list, which then gets to know the result that its items
are arms of. -/
theorem uprightInside_pendingArms :
    let known : Ty := .list .blank (.result .blank (.maybe .blank .str) .str)
    ∃ v, pendingArms.copy.push (makeArm .err (.str "late")) = .ok v ∧ (v.refine known).Obtained ∧
      (v.refine known).UprightInside := by
  intro known
  have hnone : Obtained ⟨noneLabel (.maybe .blank .int), .absent⟩ :=
    .make (List.forall_mem_nil _) (.noneOf (t := .maybe .blank .int) rfl)
  have harm : Obtained (makeArm .ok ⟨noneLabel (.maybe .blank .int), .absent⟩) :=
    .make (List.forall_mem_singleton.mpr hnone) (.makeArm .ok _)
  have hlist : pendingArms.Obtained := .make (List.forall_mem_singleton.mpr harm)
    (.list (t := .list .blank (.var .blank "T")) rfl)
  have hlate : (makeArm .err (.str "late")).Obtained :=
    .make (List.forall_mem_singleton.mpr (.make (List.forall_mem_nil _) (.str "late")))
      (.makeArm .err _)
  have hpush : ∃ v, pendingArms.copy.push (makeArm .err (.str "late")) = .ok v := ⟨_, rfl⟩
  obtain ⟨v, hv⟩ := hpush
  have hrefined : (v.refine known).Obtained := .refine known (.push (.copy hlist) hlate hv)
  exact ⟨v, hv, hrefined, uprightInside_of_obtained hrefined⟩

end Value

end TypedValues
