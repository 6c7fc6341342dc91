import Mathlib.Data.List.Nodup
import TypedValues.Proofs.Value.Keys
import TypedValues.Proofs.Value.Operations
import TypedValues.Value.Decoding

/-!
# Decoding, form by form

What decoding is at each form of a type. The values that it makes are of the types it makes them
for, and the keys that it stores them under have been read, so that no step of it faults: items,
entries and fields are decoded one after another, and what comes of them is put together.
-/

namespace TypedValues.Value

open Outcome

variable {s : Stamp} {name text : String} {key value elem inner okTy errTy : Ty} {d : HostData}
  {items : List HostData} {entries : Dict HostData} {stored : Dict Value} {args : List Ty}
  {fields : List (String × Ty)} {decodeValue : HostData → Decoded Value} {v : Value}

/-! ## Lists and maps -/

theorem decode_list :
    decode (.list s elem) (.seq items) =
      (items.mapM (decode elem)).map fun vs => typed (.list s elem) (.list vs) := by
  show (items.mapM (decode elem) >>= fun vs => Decoded.ofBuilt (list (.list s elem) vs)) = _
  cases items.mapM (decode elem) <;> rfl

theorem decode_list_eq_ok :
    decode (.list s elem) d = .ok v ↔
      ∃ items vs, d = .seq items ∧ List.Forall₂ (fun d w => decode elem d = .ok w) items vs ∧
        typed (.list s elem) (.list vs) = v := by
  constructor
  · intro h
    cases d with
    | seq items =>
      obtain ⟨vs, hvs, rfl⟩ := map_eq_ok.mp (decode_list.symm.trans h)
      exact ⟨items, vs, rfl, mapM_eq_ok.mp hvs, rfl⟩
    | _ => contradiction
  · rintro ⟨items, vs, rfl, hvs, rfl⟩
    rw [decode_list, map_eq_ok]
    exact ⟨vs, mapM_eq_ok.mpr hvs, rfl⟩

/-- An entry of a mapping as an entry of a map, under the text that its key is written as. -/
def decodeEntry (keyType : Ty) (decodeValue : HostData → Decoded Value) (e : String × HostData) :
    Decoded (String × Value) := do
  let key ← Decoded.ofKey (ofKeyText? keyType e.1)
  let value ← decodeValue e.2
  let text ← Decoded.ofBuilt (key.keyText keyType)
  pure (text, value)

theorem keyAndEntries_typed (k : Value) :
    (typed (.map s key value) (.map stored)).keyAndEntries k =
      (k.keyText key).map fun text => (text, stored) := by
  show (k.keyText key >>= fun text => .ok (text, stored)) = _
  cases k.keyText key <;> rfl

theorem insert_typed (k v : Value) :
    (typed (.map s key value) (.map stored)).insert k v =
      (k.keyText key).map fun text =>
        (stored.find? text, typed (.map s key value) (.map (stored.insert text v))) := by
  rw [insert, keyAndEntries_typed]
  cases k.keyText key <;> rfl

theorem lookup_typed (k : Value) :
    (typed (.map s key value) (.map stored)).lookup k = (k.keyText key).map stored.find? := by
  rw [lookup, keyAndEntries_typed]
  cases k.keyText key <;> rfl

theorem decodeEntries_cons (e : String × HostData) (rest : List (String × HostData)) :
    decodeEntries key decodeValue (typed (.map s key value) (.map stored)) (e :: rest) =
      decodeEntry key decodeValue e >>= fun e' =>
        decodeEntries key decodeValue
          (typed (.map s key value) (.map (stored.insert e'.1 e'.2))) rest := by
  obtain ⟨text, d⟩ := e
  rw [decodeEntries, decodeEntry]
  cases ofKeyText? key text with
  | error => rfl
  | ok k =>
    cases decodeValue d with
    | error => rfl
    | ok v =>
      dsimp only [Decoded.ofKey, bind, Except.bind]
      rw [insert_typed]
      cases k.keyText key <;> rfl

/-- Entries are decoded one after another, and stored in the order of the data. -/
theorem decodeEntries_eq_mapM (es : List (String × HostData)) :
    decodeEntries key decodeValue (typed (.map s key value) (.map stored)) es =
      (es.mapM (decodeEntry key decodeValue)).map fun es' =>
        typed (.map s key value) (.map (es'.foldl (fun d e => Dict.insert e.1 e.2 d) stored)) := by
  induction es generalizing stored with
  | nil => rfl
  | cons e rest ih =>
    rw [decodeEntries_cons, List.mapM_cons]
    cases decodeEntry key decodeValue e with
    | error => rfl
    | ok e' =>
      show decodeEntries key decodeValue (typed _ (.map (stored.insert e'.1 e'.2))) rest = _
      rw [ih]
      cases rest.mapM (decodeEntry key decodeValue) <;> rfl

theorem decode_map :
    decode (.map s key value) (.mapping entries) =
      (entries.mapM (decodeEntry key (decode value))).map fun es =>
        typed (.map s key value) (.map (Dict.ofList es)) :=
  decodeEntries_eq_mapM entries

theorem ofKey_eq_ok {α : Type} {x : Except KeyError α} {a : α} :
    Decoded.ofKey x = .ok a ↔ x = .ok a := by
  cases x <;> simp [Decoded.ofKey, Decoded.reject]

theorem ofBuilt_eq_ok {α : Type} {x : Except Fault α} {a : α} :
    Decoded.ofBuilt x = .ok a ↔ x = .ok a := by
  cases x <;> simp [Decoded.ofBuilt]

theorem decodeEntry_eq_ok {e : String × HostData} {e' : String × Value} :
    decodeEntry key decodeValue e = .ok e' ↔
      ∃ k, ofKeyText? key e.1 = .ok k ∧ k.keyText key = .ok e'.1 ∧ decodeValue e.2 = .ok e'.2 := by
  obtain ⟨text, v⟩ := e'
  simp only [decodeEntry, bind_eq_ok, pure_eq_ok, Prod.mk.injEq, ofKey_eq_ok, ofBuilt_eq_ok]
  constructor
  · rintro ⟨k, hk, v, hv, text, htext, rfl, rfl⟩
    exact ⟨k, hk, htext, hv⟩
  · rintro ⟨k, hk, htext, hv⟩
    exact ⟨k, hk, v, hv, text, htext, rfl, rfl⟩

theorem decode_map_eq_ok :
    decode (.map s key value) d = .ok v ↔
      ∃ entries es, d = .mapping entries ∧
        List.Forall₂ (fun e e' => decodeEntry key (decode value) e = .ok e') entries es ∧
        typed (.map s key value) (.map (Dict.ofList es)) = v := by
  constructor
  · intro h
    cases d with
    | mapping entries =>
      obtain ⟨es, hes, rfl⟩ := map_eq_ok.mp (decode_map.symm.trans h)
      exact ⟨entries, es, rfl, mapM_eq_ok.mp hes, rfl⟩
    | _ => contradiction
  · rintro ⟨entries, es, rfl, hes, rfl⟩
    rw [decode_map, map_eq_ok]
    exact ⟨es, mapM_eq_ok.mpr hes, rfl⟩

/-- Whatever the spelling and the order of its keys, a mapping is stored under the texts that keys
are written as, in order. -/
theorem exists_entries_of_decode (h : decode (.map s key value) d = .ok v) :
    ∃ entries : Dict Value, typed (.map s key value) (.map entries) = v ∧ entries.Ascending ∧
      (∀ e ∈ entries, ∃ k, ofKeyText? key e.1 = .ok k ∧ k.keyText key = .ok e.1) ∧
      ∀ e ∈ entries, ∃ d, decode value d = .ok e.2 := by
  obtain ⟨data, es, rfl, hes, rfl⟩ := decode_map_eq_ok.mp h
  have hstored : ∀ e ∈ Dict.ofList es, ∃ e', decodeEntry key (decode value) e' = .ok e := by
    intro e he
    obtain ⟨e', -, hdecode⟩ := exists_of_mem_forall₂ hes (Dict.mem_of_mem_ofList he)
    exact ⟨e', hdecode⟩
  refine ⟨Dict.ofList es, rfl, Dict.ascending_ofList es, fun e he => ?_, fun e he => ?_⟩
  · obtain ⟨e', hdecode⟩ := hstored e he
    obtain ⟨k, hread, htext, -⟩ := decodeEntry_eq_ok.mp hdecode
    obtain ⟨u, hu, k', hagain, -, hsame⟩ := exists_keyText_of_ofKeyText? hread
    obtain rfl : u = e.1 := Except.ok.inj (hu.symm.trans htext)
    exact ⟨k', hagain, hsame⟩
  · obtain ⟨e', hdecode⟩ := hstored e he
    obtain ⟨k, -, -, hv⟩ := decodeEntry_eq_ok.mp hdecode
    exact ⟨e'.2, hv⟩

/-! ## Maybes and results -/

theorem decode_maybe_null :
    decode (.maybe s inner) .null = .ok ⟨noneLabel (.maybe s inner), .absent⟩ := rfl

theorem decode_maybe (h : d ≠ .null) :
    decode (.maybe s inner) d =
      (decode inner d).map fun v => typed (.maybe s inner) v.payload := by
  have hfilled : decode (.maybe s inner) d = decode inner d >>= fun v =>
      Decoded.ofBuilt (noneOf (.maybe s inner) >>= fun none => none.toSome v) := by
    cases d with
    | null => contradiction
    | _ => rfl
  rw [hfilled]
  cases decode inner d <;> rfl

theorem decode_maybe_eq_ok :
    decode (.maybe s inner) d = .ok v ↔
      d = .null ∧ ⟨noneLabel (.maybe s inner), .absent⟩ = v ∨
        d ≠ .null ∧ ∃ w, decode inner d = .ok w ∧ typed (.maybe s inner) w.payload = v := by
  by_cases h : d = .null
  · simp [h, decode_maybe_null]
  · simp [h, decode_maybe h, map_eq_ok]

theorem decode_result_ok :
    decode (.result s okTy errTy) (.mapping [("Ok", d)]) =
      (decode okTy d).map fun v => v.narrow .ok (some (.result s okTy errTy)) := by
  show (decode okTy d >>= fun v => Decoded.ofBuilt (makeArmIn .ok v (.result s okTy errTy))) = _
  cases decode okTy d <;> rfl

theorem decode_result_err :
    decode (.result s okTy errTy) (.mapping [("Err", d)]) =
      (decode errTy d).map fun v => v.narrow .err (some (.result s okTy errTy)) := by
  show (decode errTy d >>= fun v => Decoded.ofBuilt (makeArmIn .err v (.result s okTy errTy))) = _
  cases decode errTy d <;> rfl

theorem decode_result_of_ne (hok : ∀ d', d ≠ .mapping [("Ok", d')])
    (herr : ∀ d', d ≠ .mapping [("Err", d')]) :
    decode (.result s okTy errTy) d = mismatched (.result s okTy errTy) d := by
  cases d with
  | mapping entries =>
    cases entries with
    | nil => rfl
    | cons e rest =>
      cases rest with
      | cons => rfl
      | nil =>
        obtain ⟨arm, d'⟩ := e
        have hok : arm ≠ "Ok" := fun h => hok d' (h ▸ rfl)
        have herr : arm ≠ "Err" := fun h => herr d' (h ▸ rfl)
        exact (if_neg hok).trans (if_neg herr)
  | _ => rfl

theorem decode_result_eq_ok :
    decode (.result s okTy errTy) d = .ok v ↔
      (∃ d' w, d = .mapping [("Ok", d')] ∧ decode okTy d' = .ok w ∧
        w.narrow .ok (some (.result s okTy errTy)) = v) ∨
      ∃ d' w, d = .mapping [("Err", d')] ∧ decode errTy d' = .ok w ∧
        w.narrow .err (some (.result s okTy errTy)) = v := by
  constructor
  · intro h
    by_cases hok : ∃ d', d = .mapping [("Ok", d')]
    · obtain ⟨d', rfl⟩ := hok
      obtain ⟨w, hw, rfl⟩ := map_eq_ok.mp (decode_result_ok.symm.trans h)
      exact .inl ⟨d', w, rfl, hw, rfl⟩
    by_cases herr : ∃ d', d = .mapping [("Err", d')]
    · obtain ⟨d', rfl⟩ := herr
      obtain ⟨w, hw, rfl⟩ := map_eq_ok.mp (decode_result_err.symm.trans h)
      exact .inr ⟨d', w, rfl, hw, rfl⟩
    cases (decode_result_of_ne (not_exists.mp hok) (not_exists.mp herr)).symm.trans h
  · rintro (⟨d', w, rfl, hw, rfl⟩ | ⟨d', w, rfl, hw, rfl⟩)
    · rw [decode_result_ok, map_eq_ok]
      exact ⟨w, hw, rfl⟩
    · rw [decode_result_err, map_eq_ok]
      exact ⟨w, hw, rfl⟩

/-! ## Structs and enums -/

/-- A declared field of a struct, decoded from the entry of its name. -/
def decodeField (struct : String) (entries : Dict HostData) (f : String × Ty) :
    Decoded (String × Value) :=
  match entries.find? f.1 with
  | none => .reject (.missingField struct f.1)
  | some d => (decode f.2 d).map (Prod.mk f.1)

theorem decodeFields_eq_mapM (struct : String) (fields : List (String × Ty)) :
    decodeFields struct fields entries = fields.mapM (decodeField struct entries) := by
  induction fields with
  | nil => rfl
  | cons f rest ih =>
    obtain ⟨n, t⟩ := f
    rw [List.mapM_cons, decodeField, ← ih, decodeFields]
    cases entries.find? n with
    | none => rfl
    | some d =>
      dsimp only
      cases decode t d <;> rfl

theorem isNone_field? {t : Ty} : (t.field? name).isNone = true ↔ name ∉ t.fields.map Prod.fst := by
  rw [Option.isNone_iff_eq_none, Ty.field?, List.lookup_eq_none_iff, List.mem_map, not_exists]
  simp only [bne_iff_ne, not_and]
  exact forall₂_congr fun p _ => ne_comm

theorem find?_undeclared {t : Ty} :
    List.find? (fun e => (t.field? e.1).isNone) entries = none ↔
      ∀ e ∈ entries, e.1 ∈ t.fields.map Prod.fst := by
  simp only [List.find?_eq_none, isNone_field?, not_not]

theorem decode_struct_mapping :
    decode (.struct s name args fields) (.mapping entries) =
      match List.find? (fun e => ((Ty.struct s name args fields).field? e.1).isNone) entries with
      | some (field, _) => .reject (.unknownField name field)
      | none => decodeFields name fields entries >>= fun fs =>
          Decoded.ofBuilt (struct (.struct s name args fields) fs) := rfl

/-- The first entry of a name that is not declared is refused. -/
theorem decode_struct_of_undeclared (s : Stamp) (args : List Ty)
    (h : ¬ ∀ e ∈ entries, e.1 ∈ fields.map Prod.fst) :
    ∃ field, decode (.struct s name args fields) (.mapping entries) =
      .reject (.unknownField name field) := by
  rw [decode_struct_mapping]
  split
  · next field _ _ => exact ⟨field, rfl⟩
  · next hfind => exact absurd (find?_undeclared.mp hfind) h

theorem decode_struct (h : ∀ e ∈ entries, e.1 ∈ fields.map Prod.fst) :
    decode (.struct s name args fields) (.mapping entries) =
      (fields.mapM (decodeField name entries)).map fun fs =>
        typed (.struct s name args fields) (.map (Dict.ofList fs)) := by
  rw [decode_struct_mapping, find?_undeclared.mpr h, decodeFields_eq_mapM]
  cases fields.mapM (decodeField name entries) <;> rfl

theorem decodeField_eq_ok {f : String × Ty} {e : String × Value} :
    decodeField name entries f = .ok e ↔
      ∃ d, entries.find? f.1 = some d ∧ decode f.2 d = .ok e.2 ∧ f.1 = e.1 := by
  obtain ⟨n, v⟩ := e
  unfold decodeField
  split
  · next h => simp [h, Decoded.reject]
  · next d h => simp [h, map_eq_ok]

theorem decode_struct_eq_ok :
    decode (.struct s name args fields) d = .ok v ↔
      ∃ entries fs, d = .mapping entries ∧ (∀ e ∈ entries, e.1 ∈ fields.map Prod.fst) ∧
        List.Forall₂ (fun f e => decodeField name entries f = .ok e) fields fs ∧
        typed (.struct s name args fields) (.map (Dict.ofList fs)) = v := by
  constructor
  · intro h
    cases d with
    | mapping entries =>
      by_cases hdeclared : ∀ e ∈ entries, e.1 ∈ fields.map Prod.fst
      · obtain ⟨fs, hfs, rfl⟩ := map_eq_ok.mp ((decode_struct hdeclared).symm.trans h)
        exact ⟨entries, fs, rfl, hdeclared, mapM_eq_ok.mp hfs, rfl⟩
      · obtain ⟨field, hrefused⟩ := decode_struct_of_undeclared s args hdeclared
        cases hrefused.symm.trans h
    | _ => contradiction
  · rintro ⟨entries, fs, rfl, hdeclared, hfs, rfl⟩
    rw [decode_struct hdeclared, map_eq_ok]
    exact ⟨fs, mapM_eq_ok.mpr hfs, rfl⟩

theorem keys_of_decodeField {fs : List (String × Value)}
    (h : List.Forall₂ (fun f e => decodeField name entries f = .ok e) fields fs) :
    fields.map Prod.fst = fs.map Prod.fst := by
  apply map_eq_map_iff_forall₂.mpr
  apply h.imp
  intro f e he
  obtain ⟨-, -, -, hsame⟩ := decodeField_eq_ok.mp he
  exact hsame

/-- A struct has exactly the declared fields, each with what was decoded at its own type. -/
theorem exists_fields_of_decode (hdistinct : (fields.map Prod.fst).Nodup)
    (h : decode (.struct s name args fields) d = .ok v) :
    ∃ entries : Dict Value, typed (.struct s name args fields) (.map entries) = v ∧
      entries.Ascending ∧ (∀ e ∈ entries, e.1 ∈ fields.map Prod.fst) ∧
      (∀ f ∈ fields, f.1 ∈ entries.keys) ∧
      ∀ f ∈ fields, ∀ w, entries.find? f.1 = some w → ∃ d, decode f.2 d = .ok w := by
  obtain ⟨data, fs, rfl, -, hfs, rfl⟩ := decode_struct_eq_ok.mp h
  have hkeys := keys_of_decodeField hfs
  refine ⟨Dict.ofList fs, rfl, Dict.ascending_ofList fs, ?_, ?_, ?_⟩
  · intro e he
    rw [hkeys]
    exact List.mem_map_of_mem (Dict.mem_of_mem_ofList he)
  · intro f hf
    rw [Dict.mem_keys_ofList, ← hkeys]
    exact List.mem_map_of_mem hf
  · intro f hf w hw
    obtain ⟨g, hg, hdecode⟩ :=
      exists_of_mem_forall₂ hfs (Dict.mem_of_mem_ofList (Dict.mem_of_find? hw))
    obtain ⟨d, -, hd, hsame⟩ := decodeField_eq_ok.mp hdecode
    obtain rfl : g = f := List.inj_on_of_nodup_map hdistinct hg hf hsame
    exact ⟨d, hd⟩

section Members

variable {members : List (String × Int64)} {member : String} {n : Int64}

theorem mem_of_discriminant? (h : (Ty.enum s name members).discriminant? member = some n) :
    (member, n) ∈ members := by
  obtain ⟨l₁, l₂, hmembers, -⟩ := List.lookup_eq_some_iff.mp h
  rw [show members = l₁ ++ (member, n) :: l₂ from hmembers]
  simp

theorem discriminant?_eq_none :
    (Ty.enum s name members).discriminant? member = none ↔ ∀ m ∈ members, m.1 ≠ member := by
  rw [Ty.discriminant?, Ty.members, List.lookup_eq_none_iff]
  simp only [bne_iff_ne, ne_comm]

theorem mem_of_memberName? (h : (Ty.enum s name members).memberName? n = some member) :
    (member, n) ∈ members := by
  obtain ⟨m, hm, rfl⟩ := Option.map_eq_some_iff.mp h
  obtain rfl : m.2 = n := by simpa using List.find?_some hm
  exact List.mem_of_find?_eq_some hm

theorem memberName?_eq_none :
    (Ty.enum s name members).memberName? n = none ↔ ∀ m ∈ members, m.2 ≠ n := by
  rw [Ty.memberName?, Ty.members, Option.map_eq_none_iff, List.find?_eq_none]
  simp only [beq_iff_eq, ne_eq]

theorem decode_member (h : (Ty.enum s name members).discriminant? member = some n) :
    decode (.enum s name members) (.str member) = .ok (typed (.enum s name members) (.int n)) := by
  show decodeMember (.enum s name members) name (.str member) = _
  rw [decodeMember, h]
  rfl

theorem decode_member_of_unknown (h : (Ty.enum s name members).discriminant? member = none) :
    decode (.enum s name members) (.str member) =
      .reject (.unknownMember name ("`" ++ member ++ "`")) := by
  show decodeMember (.enum s name members) name (.str member) = _
  rw [decodeMember, h]

theorem decode_discriminant (h : (member, n) ∈ members) :
    decode (.enum s name members) (.int n) = .ok (typed (.enum s name members) (.int n)) := by
  cases hname : (Ty.enum s name members).memberName? n with
  | some =>
    show decodeMember (.enum s name members) name (.int n) = _
    rw [decodeMember, hname]
    rfl
  | none => exact absurd rfl (memberName?_eq_none.mp hname (member, n) h)

theorem decode_discriminant_of_unknown (h : (Ty.enum s name members).memberName? n = none) :
    decode (.enum s name members) (.int n) = .reject (.unknownMember name (intText n)) := by
  show decodeMember (.enum s name members) name (.int n) = _
  rw [decodeMember, h]

end Members

end TypedValues.Value
