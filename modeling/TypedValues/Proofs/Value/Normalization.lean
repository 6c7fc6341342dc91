import TypedValues.Proofs.Value.Decoding
import TypedValues.Proofs.Everywhere
import TypedValues.Value.Induction

/-!
# Normal forms

What decoding makes of data at a type without results is a normal form of the type: labels
without narrowing, keys in the spelling that keys are written in, entries in order. The
projection of a normal form is decoded to that normal form (`Value.Normal.decode_project`).
-/

namespace TypedValues

/-- The values that data is decoded to at a type without results. A filled maybe does not project
to null, which would be decoded to an empty one. -/
inductive Value.Normal : Ty → Value → Prop
  | str (s : String) : Normal .str (.str s)
  | int (n : Int64) : Normal .int (.int n)
  | bool (b : Bool) : Normal .bool (.bool b)
  | float (x : Binary64) : Normal .float (.float x)
  | dynamic (d : HostData) : Normal .dynamic (.dynamic d)
  | list {s : Stamp} {elem : Ty} {items : List Value} (h : ∀ v ∈ items, Normal elem v) :
      Normal (.list s elem) (typed (.list s elem) (.list items))
  | map {s : Stamp} {key value : Ty} {entries : Dict Value} (hasc : entries.Ascending)
      (hkeys : ∀ e ∈ entries, ∃ k, ofKeyText? key e.1 = .ok k ∧ k.keyText key = .ok e.1)
      (hvalues : ∀ e ∈ entries, Normal value e.2) :
      Normal (.map s key value) (typed (.map s key value) (.map entries))
  | empty {s : Stamp} {inner : Ty} :
      Normal (.maybe s inner) ⟨noneLabel (.maybe s inner), .absent⟩
  | filled {s : Stamp} {inner : Ty} {p : Payload} (h : Normal inner (typed inner p))
      (hp : p.project ≠ .null) : Normal (.maybe s inner) (typed (.maybe s inner) p)
  | struct {s : Stamp} {name : String} {args : List Ty} {fields : List (String × Ty)}
      {entries : Dict Value} (hasc : entries.Ascending)
      (hdeclared : ∀ e ∈ entries, e.1 ∈ fields.map Prod.fst)
      (hpresent : ∀ f ∈ fields, f.1 ∈ entries.keys)
      (hfields : ∀ f ∈ fields, ∀ v, entries.find? f.1 = some v → Normal f.2 v) :
      Normal (.struct s name args fields) (typed (.struct s name args fields) (.map entries))
  | member {s : Stamp} {name : String} {members : List (String × Int64)}
      {m : String × Int64} (h : m ∈ members) :
      Normal (.enum s name members) (typed (.enum s name members) (.int m.2))

namespace Value

open Outcome

variable {t : Ty} {v : Value} {d : HostData}

/-! ## Projected entries -/

theorem find?_projectEntries (key : String) (entries : Dict Value) :
    Dict.find? key (Payload.projectEntries entries) = (entries.find? key).map project := by
  rw [Payload.projectEntries_eq_map]
  exact Dict.find?_map (fun _ v => v.project) key entries

theorem keys_projectEntries (entries : Dict Value) :
    Dict.keys (Payload.projectEntries entries) = entries.keys := by
  rw [Payload.projectEntries_eq_map]
  exact Dict.keys_map (fun _ v => v.project) entries

/-! ## Normal forms decoded -/

section Containers

variable {s : Stamp} {name : String} {elem key value : Ty} {args : List Ty}
  {fields : List (String × Ty)} {items : List Value} {entries : Dict Value}

theorem decode_list_project (hitems : ∀ v ∈ items, decode elem v.project = .ok v) :
    decode (.list s elem) (.seq (Payload.projectItems items)) =
      .ok (typed (.list s elem) (.list items)) := by
  refine decode_list_eq_ok.mpr ⟨Payload.projectItems items, items, rfl, ?_, rfl⟩
  rw [Payload.projectItems_eq_map, List.forall₂_map_left_iff, List.forall₂_same]
  exact hitems

theorem decode_map_project (hasc : entries.Ascending)
    (hkeys : ∀ e ∈ entries, ∃ k, ofKeyText? key e.1 = .ok k ∧ k.keyText key = .ok e.1)
    (hvalues : ∀ e ∈ entries, decode value e.2.project = .ok e.2) :
    decode (.map s key value) (.mapping (Payload.projectEntries entries)) =
      .ok (typed (.map s key value) (.map entries)) := by
  refine decode_map_eq_ok.mpr ⟨Payload.projectEntries entries, entries, rfl, ?_, ?_⟩
  · rw [Payload.projectEntries_eq_map, List.forall₂_map_left_iff, List.forall₂_same]
    intro e he
    obtain ⟨k, hread, htext⟩ := hkeys e he
    exact decodeEntry_eq_ok.mpr ⟨k, hread, htext, hvalues e he⟩
  · rw [hasc.ofList_eq]

theorem decode_struct_project (hasc : entries.Ascending)
    (hdeclared : ∀ e ∈ entries, e.1 ∈ fields.map Prod.fst)
    (hpresent : ∀ f ∈ fields, f.1 ∈ entries.keys)
    (hfields : ∀ f ∈ fields, ∀ v, entries.find? f.1 = some v → decode f.2 v.project = .ok v) :
    decode (.struct s name args fields) (.mapping (Payload.projectEntries entries)) =
      .ok (typed (.struct s name args fields) (.map entries)) := by
  have hdeclared' : ∀ e ∈ Payload.projectEntries entries, e.1 ∈ fields.map Prod.fst := by
    intro e he
    obtain ⟨e', he', hsame⟩ := Dict.exists_mem_of_keys_eq (keys_projectEntries entries) he
    rw [← hsame]
    exact hdeclared e' he'
  have hfield : ∀ f ∈ fields, ∃ e, decodeField name (Payload.projectEntries entries) f = .ok e ∧
      entries.find? e.1 = some e.2 := by
    intro f hf
    obtain ⟨v, hv⟩ := Option.isSome_iff_exists.mp (Dict.mem_keys.mp (hpresent f hf))
    refine ⟨(f.1, v), decodeField_eq_ok.mpr ⟨v.project, ?_, hfields f hf v hv, rfl⟩, hv⟩
    rw [find?_projectEntries, hv, Option.map_some]
  obtain ⟨fs, hall⟩ := exists_forall₂ hfield
  have hfs := hall.imp fun _ _ h => h.1
  refine decode_struct_eq_ok.mpr ⟨Payload.projectEntries entries, fs, rfl, hdeclared', hfs, ?_⟩
  -- a field that is declared twice is decoded twice, to one value
  rw [hasc.ofList_eq_of_find?]
  · intro e he
    obtain ⟨f, -, -, hv⟩ := exists_of_mem_forall₂ hall he
    exact hv
  · intro k hk
    rw [← keys_of_decodeField hfs]
    obtain ⟨e, he, rfl⟩ := List.mem_map.mp hk
    exact hdeclared e he

end Containers

namespace Normal

/-- No normal form is a function, so that the contents are what is projected. -/
theorem project_eq (h : v.Normal t) : v.project = v.payload.project := by
  cases h <;> rfl

/-- Only an empty maybe has another label than a value of the type is made with. -/
theorem eq_typed (h : v.Normal t) (hv : v.project ≠ .null) : v = typed t v.payload := by
  cases h with
  | empty => contradiction
  | _ => rfl

/-- By induction on the value: what each part projects to is decoded to that part. -/
theorem decode_project (h : v.Normal t) : decode t v.project = .ok v := by
  induction h with
  | str | int | bool | float | dynamic => rfl
  | list _ ih => exact decode_list_project ih
  | map hasc hkeys _ ih => exact decode_map_project hasc hkeys ih
  | empty => exact decode_maybe_null
  | @filled s inner p h hp ih =>
    have hproject : (typed inner p).project = p.project := h.project_eq
    rw [hproject] at ih
    exact decode_maybe_eq_ok.mpr (.inr ⟨hp, typed inner p, ih, rfl⟩)
  | struct hasc hdeclared hpresent _ ih => exact decode_struct_project hasc hdeclared hpresent ih
  | member h => exact decode_discriminant h

end Normal

/-! ## Decoded data -/

/-- Data that is decoded at the type gives a normal form, which is not null unless the data is. -/
def Normalizes (t : Ty) : Prop :=
  ∀ d v, decode t d = .ok v → v.Normal t ∧ (d ≠ .null → v.project ≠ .null)

section Forms

variable {s : Stamp} {name : String} {key value elem inner : Ty} {args : List Ty}
  {fields : List (String × Ty)} {members : List (String × Int64)}

theorem normalizes_prim (p : Primitive) : Normalizes (.prim p) := by
  intro d v h
  cases p with
  | void => contradiction
  | dynamic =>
    cases h
    exact ⟨.dynamic d, id⟩
  | str =>
    cases d with
    | str s =>
      cases h
      exact ⟨.str s, fun _ => nofun⟩
    | _ => contradiction
  | int =>
    cases d with
    | int n =>
      cases h
      exact ⟨.int n, fun _ => nofun⟩
    | _ => contradiction
  | bool =>
    cases d with
    | bool b =>
      cases h
      exact ⟨.bool b, fun _ => nofun⟩
    | _ => contradiction
  | float =>
    cases d with
    | float x =>
      cases h
      exact ⟨.float x, fun _ => nofun⟩
    | int n =>
      cases h
      exact ⟨.float (.ofInt n), fun _ => nofun⟩
    | _ => contradiction

theorem normalizes_list (helem : Normalizes elem) : Normalizes (.list s elem) := by
  intro d v h
  obtain ⟨items, vs, rfl, hvs, rfl⟩ := decode_list_eq_ok.mp h
  refine ⟨.list ?_, fun _ => nofun⟩
  intro w hw
  obtain ⟨d, -, hd⟩ := exists_of_mem_forall₂ hvs hw
  exact (helem d w hd).1

theorem normalizes_map (hvalue : Normalizes value) : Normalizes (.map s key value) := by
  intro d v h
  obtain ⟨entries, rfl, hasc, hkeys, hvalues⟩ := exists_entries_of_decode h
  refine ⟨.map hasc hkeys fun e he => ?_, fun _ => nofun⟩
  obtain ⟨d, hd⟩ := hvalues e he
  exact (hvalue d e.2 hd).1

theorem normalizes_maybe (hinner : Normalizes inner) : Normalizes (.maybe s inner) := by
  intro d v h
  obtain ⟨rfl, rfl⟩ | ⟨hd, w, hw, rfl⟩ := decode_maybe_eq_ok.mp h
  · exact ⟨.empty, fun hne => absurd rfl hne⟩
  · obtain ⟨hnormal, hproject⟩ := hinner d w hw
    have hp : w.payload.project ≠ .null := by
      rw [← hnormal.project_eq]
      exact hproject hd
    rw [hnormal.eq_typed (hproject hd)] at hnormal
    exact ⟨.filled hnormal hp, fun _ => hp⟩

theorem normalizes_struct (hdistinct : (fields.map Prod.fst).Nodup)
    (hfields : ∀ f ∈ fields, Normalizes f.2) : Normalizes (.struct s name args fields) := by
  intro d v h
  obtain ⟨entries, rfl, hasc, hdeclared, hpresent, hvalues⟩ := exists_fields_of_decode hdistinct h
  refine ⟨.struct hasc hdeclared hpresent fun f hf w hw => ?_, fun _ => nofun⟩
  obtain ⟨d, hd⟩ := hvalues f hf w hw
  exact (hfields f hf d w hd).1

theorem normalizes_enum : Normalizes (.enum s name members) := by
  intro d v h
  cases d with
  | str member =>
    cases hn : (Ty.enum s name members).discriminant? member with
    | some n =>
      cases (decode_member hn).symm.trans h
      exact ⟨.member (mem_of_discriminant? hn), fun _ => nofun⟩
    | none => cases (decode_member_of_unknown hn).symm.trans h
  | int n =>
    cases hm : (Ty.enum s name members).memberName? n with
    | some member =>
      have hmem := mem_of_memberName? hm
      cases (decode_discriminant hmem).symm.trans h
      exact ⟨.member hmem, fun _ => nofun⟩
    | none => cases (decode_discriminant_of_unknown hm).symm.trans h
  | _ => contradiction

end Forms

end Value

/-! ## Types without results -/

namespace Ty

def NoResults : Ty → Prop := Everywhere parts fun t => t.isResult = false

/-- No struct in the type declares two fields of one name. -/
def DistinctFields : Ty → Prop := Everywhere parts fun t => (t.fields.map Prod.fst).Nodup

def NoEnums : Ty → Prop := Everywhere parts fun t => Kind.ofTy t ≠ .enum

/-- The maps in the type have texts or truth values as keys, which have one spelling each. -/
def LiteralKeys : Ty → Prop :=
  Everywhere parts fun t => ∀ key, t.key? = some key → key = .str ∨ key = .bool

end Ty

namespace Value

/-- By induction on the type: what is decoded at its parts is normal. -/
theorem normalizes {t : Ty} (hresults : t.NoResults) (hdistinct : t.DistinctFields) :
    Normalizes t := by
  induction t using Ty.induction with
  | step t ih =>
    have hpart : ∀ u ∈ t.parts, Normalizes u := fun u hu =>
      ih u hu (hresults.inside u hu) (hdistinct.inside u hu)
    cases t with
    | prim p => exact normalizes_prim p
    | list => exact normalizes_list (hpart _ (by simp [Ty.parts]))
    | map => exact normalizes_map (hpart _ (by simp [Ty.parts]))
    | maybe => exact normalizes_maybe (hpart _ (by simp [Ty.parts]))
    | result => cases hresults.here
    | struct _ _ args fields =>
      refine normalizes_struct hdistinct.here fun f hf => hpart f.2 ?_
      exact List.mem_append_right args (List.mem_map_of_mem hf)
    | enum => exact normalizes_enum
    | function | var => exact fun d v h => nomatch h

end Value

end TypedValues
