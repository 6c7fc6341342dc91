import TypedValues.Proofs.Dict
import TypedValues.Proofs.Value.Labels
import TypedValues.Proofs.Value.Operations

/-!
# Reachable values

The values that the operations on values lead to, whatever was made of what in which order. A
value of any type may be made with any contents, so that little is known of how contents and
type fit. What is known of every value inside a reachable one is that it is upright: kind and
name follow the type, the flags tell of one arm at most, an origin is kept by arms only and is a
result type, and an empty maybe has no contents.
-/

namespace TypedValues

namespace Value

/-- The values that the operations on values lead to. -/
inductive Reachable : Value → Prop
  | typed {p : Payload} (t : Ty) (hp : ∀ w ∈ p.children, Reachable w) : Reachable (.typed t p)
  | noneOf {t : Ty} {v : Value} (h : noneOf t = .ok v) : Reachable v
  | makeArm {v : Value} (branch : Branch) (hv : Reachable v) : Reachable (v.makeArm branch)
  | makeArmIn {v w : Value} {t : Ty} {branch : Branch} (hv : Reachable v)
      (h : makeArmIn branch v t = .ok w) : Reachable w
  | copy {v : Value} (hv : Reachable v) : Reachable v.copy
  | refine {v : Value} (declared : Ty) (hv : Reachable v) : Reachable (v.refine declared)
  | push {v item w : Value} (hv : Reachable v) (hitem : Reachable item)
      (h : v.push item = .ok w) : Reachable w
  | insert {v key value w : Value} {old : Option Value} (hv : Reachable v)
      (hvalue : Reachable value) (h : v.insert key value = .ok (old, w)) : Reachable w
  | remove {v key w : Value} {old : Option Value} (hv : Reachable v)
      (h : v.remove key = .ok (old, w)) : Reachable w
  | setField {v value w : Value} {name : String} {old : Option Value} (hv : Reachable v)
      (hvalue : Reachable value) (h : v.setField name value = .ok (old, w)) : Reachable w
  | replaceAt {v w : Value} (step : Step) (hv : Reachable v) (hw : Reachable w) :
      Reachable (v.replaceAt step w)
  | child {v w : Value} (hv : Reachable v) (hw : w ∈ v.children) : Reachable w

/-- What is known of a value that the operations lead to, whatever its type. -/
structure Upright (v : Value) : Prop where
  coherent : v.label.Coherent
  /-- The flags tell of one arm at most. -/
  oneArm : v.flags.ok = true → v.flags.err = false
  /-- Only an arm keeps an origin, which is a result type. -/
  origin : ∀ t, v.origin = some t → v.branch?.isSome = true ∧ t.isResult = true
  /-- An empty maybe has no contents. -/
  empty : v.isNone = true → v.payload = .absent

/-- Every value inside is upright, the value itself included. -/
def UprightInside : Value → Prop := Everywhere children Upright

/-! ## The label -/

theorem Upright.typed (t : Ty) (p : Payload) : (Value.typed t p).Upright :=
  ⟨Label.coherent_ofTy t, fun h => (nomatch h), fun _ h => (nomatch h), fun h => (nomatch h)⟩

theorem Upright.noneOf {t : Ty} {v : Value} (h : Value.noneOf t = .ok v) : v.Upright := by
  obtain ⟨-, rfl⟩ := noneOf_eq_ok.mp h
  exact ⟨⟨rfl, rfl⟩, fun h => (nomatch h), fun _ h => (nomatch h), fun _ => rfl⟩

/-- A value that is no arm keeps no origin. -/
theorem Upright.origin_eq_none {v : Value} (h : v.Upright) (hb : v.branch? = none) :
    v.origin = none := by
  cases ho : v.origin with
  | none => rfl
  | some t =>
    have harm := (h.origin t ho).1
    rw [hb] at harm
    contradiction

theorem Upright.narrow {v : Value} (h : v.Upright) (branch : Branch) {origin : Option Ty}
    (horigin : ∀ t, origin = some t → t.isResult = true) : (v.narrow branch origin).Upright := by
  refine ⟨⟨h.coherent.kind_eq, h.coherent.name_eq⟩, ?_, fun t ht => ⟨?_, horigin t ht⟩, ?_⟩
  · cases branch <;> simp [Value.narrow, Value.flags, Label.narrow, Flags.narrow]
  · cases branch <;> rfl
  · cases branch <;> exact h.empty

/-- Other contents that are not put into an empty maybe leave a value upright. -/
theorem Upright.withPayload {v : Value} {p : Payload} (h : v.Upright)
    (hp : v.payload = .absent → p = .absent) : (v.withPayload p).Upright :=
  ⟨h.coherent, h.oneArm, h.origin, fun hnone => hp (h.empty hnone)⟩

theorem Upright.refine {v : Value} (declared : Ty) (h : v.Upright) : (v.refine declared).Upright := by
  obtain ⟨label, payload⟩ := v
  rw [refine_mk]
  refine ⟨h.coherent.refine declared, ?_, ?_, ?_⟩
  · intro hok
    rw [Value.flags, Label.flags_refine] at hok ⊢
    exact h.oneArm hok
  · intro t ht
    rw [Value.branch?, Value.flags, Label.flags_refine]
    rcases Label.origin_refine ht with hkept | ⟨harm, hdef | ⟨rfl, branch, arm, hdecl⟩⟩
    · exact h.origin t hkept
    · refine ⟨harm, ?_⟩
      unfold Label.definition? at hdef
      split at hdef
      · -- the arm is a result itself, and is taken for the result that it came from
        next hkind =>
        rw [h.coherent.kind_eq] at hkind
        cases hdef
        exact Kind.ofTy_eq_result.mp hkind
      · exact (h.origin t hdef).2
    · exact ⟨harm, Ty.isResult_of_arm? hdecl⟩
  · intro hnone
    rw [Value.isNone, Value.flags, Label.flags_refine] at hnone
    have hpayload : payload = .absent := h.empty hnone
    rw [hpayload]
    cases (label.refine declared).2 <;> rfl

/-! ## The values inside -/

/-- A copy of an upright value is that value again. -/
theorem UprightInside.copy_eq {v : Value} (h : v.UprightInside) : v.copy = v := by
  induction v using Value.induction with
  | step label payload ih =>
    have hlabel : label.copy = label := by
      obtain ⟨ty, kind, name, flags, origin⟩ := label
      obtain ⟨hkind, hname⟩ := h.here.coherent
      simp only at hkind hname
      rw [Label.copy, Label.ofTy, hkind, hname]
    have hpayload : (if label.dropsPayload then .absent else payload.copy) = payload := by
      split
      · -- a copy drops the contents of an empty maybe only, and that has none
        next hdrops =>
        have hnone : label.flags.none = true := by
          rw [Label.dropsPayload, Bool.and_eq_true] at hdrops
          exact hdrops.2
        exact (h.here.empty hnone).symm
      · rw [Payload.copy_eq_mapSlots]
        refine (Payload.mapSlots_congr ?_).trans payload.mapSlots_id
        intro c hc
        have hmem : c.2 ∈ payload.children := Payload.mem_children.mpr ⟨c.1, hc⟩
        exact ih c.2 hmem (h.inside c.2 hmem)
    rw [Value.copy, hlabel, hpayload]

theorem UprightInside.refine {v : Value} (declared : Ty) (h : v.UprightInside) :
    (v.refine declared).UprightInside := by
  induction v using Value.induction generalizing declared with
  | step label payload ih =>
    refine .intro (h.here.refine declared) ?_
    intro w hw
    obtain ⟨u, hu, rfl | ⟨t, rfl⟩⟩ := exists_of_mem_children_refine hw
    · exact h.inside w hu
    · exact ih u hu t (h.inside u hu)

theorem UprightInside.withPayload {v : Value} {p : Payload} (h : v.UprightInside)
    (hp : v.payload = .absent → p = .absent) (hw : ∀ w ∈ p.children, UprightInside w) :
    (v.withPayload p).UprightInside :=
  .intro (h.here.withPayload hp) hw

section Entries

variable {v w : Value} {entries entries' : Dict Value} (h : v.UprightInside)
  (hp : v.payload = .map entries)

include h hp

theorem UprightInside.entry {e : String × Value} (he : e ∈ entries) : e.2.UprightInside := by
  apply h.inside
  rw [children, hp]
  exact List.mem_map_of_mem he

theorem UprightInside.withEntries (hw : ∀ e ∈ entries', e.2.UprightInside) :
    (v.withPayload (.map entries')).UprightInside := by
  apply h.withPayload
  · simp [hp]
  · intro u hu
    obtain ⟨e, he, rfl⟩ := List.mem_map.mp hu
    exact hw e he

theorem UprightInside.storeEntry (hw : w.UprightInside) (text : String) :
    (v.withPayload (.map (entries.insert text w))).UprightInside := by
  apply h.withEntries hp
  intro e he
  rcases Dict.mem_of_mem_insert he with rfl | he
  · exact hw
  · exact h.entry hp he

theorem UprightInside.dropEntry (text : String) :
    (v.withPayload (.map (entries.erase text))).UprightInside := by
  apply h.withEntries hp
  intro e he
  exact h.entry hp (Dict.mem_erase.mp he).1

end Entries

theorem UprightInside.replaceAt {v w : Value} (step : Step) (h : v.UprightInside)
    (hw : w.UprightInside) : (v.replaceAt step w).UprightInside := by
  unfold Value.replaceAt
  split
  · next index items hp =>
    apply h.withPayload (by simp [hp])
    intro u hu
    rcases List.mem_or_eq_of_mem_set hu with hu | rfl
    · exact h.inside u (by rwa [children, hp])
    · exact hw
  · next text entries hp =>
    apply h.withEntries hp
    intro e he
    rw [Dict.modify_eq_map] at he
    obtain ⟨e', he', rfl⟩ := List.mem_map.mp he
    dsimp only
    split
    · exact hw
    · exact h.entry hp he'
  · exact h

/-- What the operations lead to is upright, and so is every value inside it. -/
theorem Reachable.uprightInside {v : Value} (h : v.Reachable) : v.UprightInside := by
  induction h with
  | @typed p t hp ih => exact .intro (.typed t p) ih
  | noneOf h =>
    obtain ⟨-, rfl⟩ := noneOf_eq_ok.mp h
    exact .of_leaf rfl (.noneOf h)
  | makeArm branch hv ih =>
    exact .intro (ih.here.narrow branch fun _ h => nomatch h) ih.inside
  | makeArmIn hv h ih =>
    obtain ⟨hresult, rfl⟩ := makeArmIn_eq_ok.mp h
    refine .intro (ih.here.narrow _ ?_) ih.inside
    intro t ht
    cases ht
    exact hresult
  | copy hv ih => rwa [ih.copy_eq]
  | refine declared hv ih => exact ih.refine declared
  | push hv hitem h ih ihitem =>
    obtain ⟨items, hp, rfl⟩ := push_eq_ok.mp h
    apply ih.withPayload (by simp [hp])
    intro w hw
    rcases List.mem_append.mp hw with hw | hw
    · exact ih.inside w (by rwa [children, hp])
    · rwa [List.mem_singleton.mp hw]
  | insert hv hvalue h ih ihvalue =>
    obtain ⟨text, entries, hkey, -, rfl⟩ := insert_eq_ok.mp h
    obtain ⟨-, -, -, hp⟩ := keyAndEntries_eq_ok.mp hkey
    exact ih.storeEntry hp ihvalue text
  | remove hv h ih =>
    obtain ⟨text, entries, hkey, -, rfl⟩ := remove_eq_ok.mp h
    obtain ⟨-, -, -, hp⟩ := keyAndEntries_eq_ok.mp hkey
    exact ih.dropEntry hp text
  | setField hv hvalue h ih ihvalue =>
    obtain ⟨entries, hfields, -, rfl⟩ := setField_eq_ok.mp h
    exact ih.storeEntry (asStruct_eq_ok.mp hfields).2 ihvalue _
  | replaceAt step hv hw ih ihw => exact ih.replaceAt step ihw
  | child hv hw ih => exact ih.inside _ hw

theorem Reachable.coherent {v : Value} (h : v.Reachable) : v.Coherent :=
  h.uprightInside.mono fun _ hw => hw.coherent

end Value

end TypedValues
