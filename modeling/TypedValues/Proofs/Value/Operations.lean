import TypedValues.Proofs.Dict
import TypedValues.Proofs.Outcome
import TypedValues.Proofs.Ty.Parts
import TypedValues.Value.Narrowing
import TypedValues.Value.Place

/-!
# What an operation does if it does not fault

For each operation that may fault, when it gives a result and which. Nothing else is asked of an
operation later on, so that what faults and in which order is settled here.
-/

namespace TypedValues

open Outcome

theorem Kind.ofTy_eq_maybe {t : Ty} : Kind.ofTy t = .maybe ↔ t.isMaybe = true := by
  cases t with
  | prim p => cases p <;> simp [Kind.ofTy, Kind.ofPrimitive, Ty.isMaybe]
  | _ => simp [Kind.ofTy, Ty.isMaybe]

theorem Kind.ofTy_eq_result {t : Ty} : Kind.ofTy t = .result ↔ t.isResult = true := by
  cases t with
  | prim p => cases p <;> simp [Kind.ofTy, Kind.ofPrimitive, Ty.isResult]
  | _ => simp [Kind.ofTy, Ty.isResult]

namespace Value

variable {t : Ty} {v w key value item : Value} {old : Option Value} {branch : Branch}
  {text name : String} {entries : Dict Value}

theorem require_eq_ok {k : Kind} {u : Unit} : require k t = .ok u ↔ Kind.ofTy t = k := by
  unfold require
  split <;> simp_all

theorem typedAs_eq_ok {k : Kind} {p : Payload} :
    typedAs k t p = .ok v ↔ Kind.ofTy t = k ∧ typed t p = v := by
  simp [typedAs, map_eq_ok, require_eq_ok]

theorem noneOf_eq_ok : noneOf t = .ok v ↔ t.isMaybe = true ∧ ⟨noneLabel t, .absent⟩ = v := by
  simp [noneOf, map_eq_ok, require_eq_ok, Kind.ofTy_eq_maybe]

theorem makeArmIn_eq_ok :
    makeArmIn branch v t = .ok w ↔ t.isResult = true ∧ v.narrow branch (some t) = w := by
  simp [makeArmIn, map_eq_ok, require_eq_ok, Kind.ofTy_eq_result]

theorem unwrapSome_eq_ok :
    v.unwrapSome = .ok w ↔
      ∃ t, v.ty.inner? = some t ∧ v.isNone = false ∧ typed t v.payload.copy = w := by
  unfold unwrapSome
  split
  · next h => simp [h]
  · next t h => cases hnone : v.isNone <;> simp [h]

/-! ## Contents -/

theorem asList_eq_ok {items : List Value} : v.asList = .ok items ↔ v.payload = .list items := by
  unfold asList
  split <;> simp_all

theorem asMap_eq_ok : v.asMap = .ok entries ↔ v.payload = .map entries := by
  unfold asMap
  split <;> simp_all

theorem asStruct_eq_ok : v.asStruct = .ok entries ↔ v.kind = .struct ∧ v.payload = .map entries := by
  unfold asStruct
  split <;> simp_all [asMap_eq_ok]

theorem push_eq_ok :
    v.push item = .ok w ↔
      ∃ items, v.payload = .list items ∧ v.withPayload (.list (items ++ [item])) = w := by
  simp only [push, bind_eq_ok, pure_eq_ok, asList_eq_ok]

/-! ## Maps -/

theorem keyType_eq_ok : v.keyType = .ok t ↔ v.ty.key? = some t := by
  unfold keyType
  split <;> simp_all

theorem keyAndEntries_eq_ok :
    v.keyAndEntries key = .ok (text, entries) ↔
      ∃ t, v.ty.key? = some t ∧ key.keyText t = .ok text ∧ v.payload = .map entries := by
  simp only [keyAndEntries, bind_eq_ok, pure_eq_ok, keyType_eq_ok, asMap_eq_ok]
  constructor
  · rintro ⟨t, ht, text, htext, entries, hp, rfl, rfl⟩
    exact ⟨t, ht, htext, hp⟩
  · rintro ⟨t, ht, htext, hp⟩
    exact ⟨t, ht, text, htext, entries, hp, rfl⟩

theorem insert_eq_ok :
    v.insert key value = .ok (old, w) ↔
      ∃ text entries, v.keyAndEntries key = .ok (text, entries) ∧
        entries.find? text = old ∧ v.withPayload (.map (entries.insert text value)) = w := by
  simp only [insert, bind_eq_ok, pure_eq_ok, Prod.exists, Prod.mk.injEq]

theorem remove_eq_ok :
    v.remove key = .ok (old, w) ↔
      ∃ text entries, v.keyAndEntries key = .ok (text, entries) ∧
        entries.find? text = old ∧ v.withPayload (.map (entries.erase text)) = w := by
  simp only [remove, bind_eq_ok, pure_eq_ok, Prod.exists, Prod.mk.injEq]

/-- A map that entries are inserted into holds what it held or their values. -/
theorem exists_stored_of_inserts {es : List (Value × Value)} {d : Dict Value}
    (h : es.foldlM (fun v e => (v.insert e.1 e.2).map Prod.snd) (typed t (.map d)) = .ok v) :
    ∃ d' : Dict Value, typed t (.map d') = v ∧ ∀ e ∈ d', e ∈ d ∨ e.2 ∈ es.map Prod.snd := by
  induction es generalizing d with
  | nil => exact ⟨d, pure_eq_ok.mp h, fun e he => .inl he⟩
  | cons e rest ih =>
    rw [List.foldlM_cons, bind_eq_ok] at h
    obtain ⟨u, hu, hrest⟩ := h
    obtain ⟨⟨old, w⟩, hinsert, rfl⟩ := map_eq_ok.mp hu
    obtain ⟨text, entries, hkey, -, rfl⟩ := insert_eq_ok.mp hinsert
    obtain ⟨-, -, -, hp⟩ := keyAndEntries_eq_ok.mp hkey
    cases hp
    obtain ⟨d', hd', hstored⟩ := ih hrest
    refine ⟨d', hd', fun f hf => ?_⟩
    rw [List.map_cons, List.mem_cons]
    rcases hstored f hf with hf | hf
    · rcases Dict.mem_of_mem_insert hf with rfl | hf
      · exact .inr (.inl rfl)
      · exact .inl hf
    · exact .inr (.inr hf)

theorem exists_stored_of_mapFrom {es : List (Value × Value)} (h : mapFrom t es = .ok v) :
    ∃ d : Dict Value, typed t (.map d) = v ∧ ∀ e ∈ d, e.2 ∈ es.map Prod.snd := by
  obtain ⟨empty, hempty, hrest⟩ := bind_eq_ok.mp h
  obtain ⟨-, rfl⟩ := typedAs_eq_ok.mp hempty
  obtain ⟨d, hd, hstored⟩ := exists_stored_of_inserts hrest
  exact ⟨d, hd, fun e he => (hstored e he).resolve_left nofun⟩

theorem lookup_eq_ok :
    v.lookup key = .ok old ↔
      ∃ text entries, v.keyAndEntries key = .ok (text, entries) ∧ entries.find? text = old := by
  simp only [lookup, bind_eq_ok, pure_eq_ok, Prod.exists]

/-- The value under a key is changed in its place. -/
theorem modifyAt_key {α : Type} (change : Value → Except Fault (α × Value))
    (h : v.keyAndEntries key = .ok (text, entries)) :
    v.modifyAt change [.key key] =
      match entries.find? text with
      | none => .ok none
      | some old => (change old).map fun r => some (r.1, v.replaceAt (.entry text) r.2) := by
  have hlocate : v.locate (.key key) =
      .ok ((entries.find? text).map fun w => (.entry text, w)) := by
    rw [locate, h]
    rfl
  rw [modifyAt, hlocate]
  cases entries.find? text with
  | none => rfl
  | some old =>
    show (modifyAt change [] old >>= _) = (change old).map _
    rw [modifyAt]
    cases change old <;> rfl

theorem replaceAt_entry (text : String) (hp : v.payload = .map entries) (w : Value) :
    v.replaceAt (.entry text) w = v.withPayload (.map (Dict.modify text (fun _ => w) entries)) := by
  unfold replaceAt
  rw [hp]

theorem entries_eq_ok {es : List (Value × Value)} :
    v.entries = .ok es ↔
      ∃ t, v.ty.key? = some t ∧ ∃ d, v.payload = .map d ∧
        (d.mapM fun e => do
          let key ← ofKeyText t e.1
          pure (key, e.2)) = .ok es := by
  simp only [Value.entries, bind_eq_ok, keyType_eq_ok, asMap_eq_ok]

/-! ## Structs -/

theorem setField_eq_ok :
    v.setField name value = .ok (old, w) ↔
      ∃ entries, v.asStruct = .ok entries ∧
        entries.find? name = old ∧ v.withPayload (.map (entries.insert name value)) = w := by
  simp only [setField, bind_eq_ok, pure_eq_ok, Prod.mk.injEq]

end Value

end TypedValues
