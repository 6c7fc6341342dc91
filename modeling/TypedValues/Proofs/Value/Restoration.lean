import TypedValues.Proofs.HostData.Reading
import TypedValues.Proofs.Value.Normalization

/-!
# Data restored

Decoding, projecting and decoding again is decoding once, and where keys and members have one
spelling each the projection of what was decoded is the data itself, with floats for the integers
that stood for them (`Value.decode_project_of_decode`).
-/

namespace TypedValues

open Outcome

/-! ## Data with floats in place -/

mutual

/-- The data with every integer that stands for a float of the type replaced by that float. -/
def HostData.floatsAt (t : Ty) (d : HostData) : HostData :=
  match t with
  | .prim .float =>
    match d with
    | .int n => .float (.ofInt n)
    | d => d
  | .list _ elem =>
    match d with
    | .seq items => .seq (items.map (floatsAt elem))
    | d => d
  | .map _ _ value =>
    match d with
    | .mapping entries => .mapping (entries.map fun e => (e.1, floatsAt value e.2))
    | d => d
  | .maybe _ inner => floatsAt inner d
  | .struct _ _ _ fields =>
    match d with
    | .mapping entries => .mapping (entries.map fun e => (e.1, floatsAtField fields e.1 e.2))
    | d => d
  | _ => d

def HostData.floatsAtField : List (String × Ty) → String → HostData → HostData
  | [], _, d => d
  | (name, t) :: rest, key, d =>
    if name = key then floatsAt t d else floatsAtField rest key d

end

namespace HostData

theorem floatsAt_null (t : Ty) : null.floatsAt t = null := by
  induction t using Ty.induction with
  | step t ih =>
    cases t with
    | prim p => cases p <;> rfl
    | maybe _ inner =>
      rw [floatsAt]
      exact ih inner (by simp [Ty.parts])
    | _ => rfl

theorem floatsAtField_of_mem {fields : List (String × Ty)} {f : String × Ty}
    (hdistinct : (fields.map Prod.fst).Nodup) (hf : f ∈ fields) (d : HostData) :
    floatsAtField fields f.1 d = d.floatsAt f.2 := by
  induction fields with
  | nil => contradiction
  | cons g rest ih =>
    obtain ⟨name, t⟩ := g
    obtain ⟨hnew, hrest⟩ := List.nodup_cons.mp hdistinct
    rcases List.mem_cons.mp hf with rfl | hf
    · rw [floatsAtField, if_pos rfl]
    · have hne : name ≠ f.1 := by
        intro h
        exact hnew (List.mem_map.mpr ⟨f, hf, h.symm⟩)
      rw [floatsAtField, if_neg hne, ih hrest hf]

end HostData

namespace Value

/-- Data that is decoded at the type is projected as it was, but for floats. -/
def Restores (t : Ty) : Prop :=
  ∀ d v, d.Ordered → decode t d = .ok v → v.project = d.floatsAt t

section Forms

variable {s : Stamp} {name : String} {key value elem inner : Ty} {args : List Ty}
  {fields : List (String × Ty)}

theorem restores_prim (p : Primitive) : Restores (.prim p) := by
  intro d v _ h
  cases p with
  | void => contradiction
  | dynamic =>
    cases h
    rfl
  | str =>
    cases d with
    | str s =>
      cases h
      rfl
    | _ => contradiction
  | int =>
    cases d with
    | int n =>
      cases h
      rfl
    | _ => contradiction
  | bool =>
    cases d with
    | bool b =>
      cases h
      rfl
    | _ => contradiction
  | float =>
    cases d with
    | float x =>
      cases h
      rfl
    | int n =>
      cases h
      rfl
    | _ => contradiction

theorem restores_list (helem : Restores elem) : Restores (.list s elem) := by
  intro d v hordered h
  obtain ⟨items, vs, rfl, hvs, rfl⟩ := decode_list_eq_ok.mp h
  have hall := (List.forall₂_and_left _ _).mpr ⟨HostData.ordered_seq.mp hordered, hvs⟩
  have hitems : items.map (HostData.floatsAt elem) = vs.map project := by
    apply map_eq_map_iff_forall₂.mpr
    apply hall.imp
    rintro d v ⟨hd, hdecode⟩
    exact (helem d v hd hdecode).symm
  show HostData.seq (Payload.projectItems vs) = .seq (items.map (HostData.floatsAt elem))
  rw [Payload.projectItems_eq_map, hitems]

theorem restores_map (hkey : key = .str ∨ key = .bool) (hvalue : Restores value) :
    Restores (.map s key value) := by
  intro d v hordered h
  obtain ⟨entries, es, rfl, hes, rfl⟩ := decode_map_eq_ok.mp h
  obtain ⟨hasc, hinside⟩ := HostData.ordered_mapping.mp hordered
  have hall : List.Forall₂
      (fun e e' => e.1 = e'.1 ∧ e.2.floatsAt value = project e'.2) entries es := by
    apply ((List.forall₂_and_left _ _).mpr ⟨hinside, hes⟩).imp
    rintro e e' ⟨he, hdecode⟩
    obtain ⟨k, hread, htext, hv⟩ := decodeEntry_eq_ok.mp hdecode
    -- texts and truth values have one spelling each, so that the key stays as it was
    rw [keyText_of_ofKeyText? hkey hread] at htext
    exact ⟨Except.ok.inj htext, (hvalue e.2 e'.2 he hv).symm⟩
  have hes : Dict.Ascending es :=
    hasc.of_keys_eq (map_eq_map_iff_forall₂.mpr (hall.imp fun _ _ h => h.1)).symm
  have hentries : (entries.map fun e => (e.1, e.2.floatsAt value)) =
      es.map fun e => (e.1, e.2.project) :=
    map_eq_map_iff_forall₂.mpr (hall.imp fun _ _ h => Prod.ext h.1 h.2)
  show HostData.mapping (Payload.projectEntries (Dict.ofList es)) =
    .mapping (entries.map fun e => (e.1, e.2.floatsAt value))
  rw [hes.ofList_eq, Payload.projectEntries_eq_map, hentries]

theorem restores_maybe (hnormal : Normalizes inner) (hinner : Restores inner) :
    Restores (.maybe s inner) := by
  intro d v hordered h
  show v.project = d.floatsAt inner
  obtain ⟨rfl, rfl⟩ | ⟨-, w, hw, rfl⟩ := decode_maybe_eq_ok.mp h
  · rw [HostData.floatsAt_null]
    rfl
  · show w.payload.project = _
    rw [← (hnormal d w hw).1.project_eq, hinner d w hordered hw]

theorem restores_struct (hdistinct : (fields.map Prod.fst).Nodup)
    (hfields : ∀ f ∈ fields, Restores f.2) : Restores (.struct s name args fields) := by
  intro d v hordered h
  obtain ⟨entries, fs, rfl, hdeclared, hfs, rfl⟩ := decode_struct_eq_ok.mp h
  obtain ⟨hasc, hinside⟩ := HostData.ordered_mapping.mp hordered
  have hfind (k : String) : Dict.find? k (Payload.projectEntries (Dict.ofList fs)) =
      Dict.find? k (entries.map fun e => (e.1, HostData.floatsAtField fields e.1 e.2)) := by
    rw [find?_projectEntries, Dict.find?_map (HostData.floatsAtField fields)]
    cases hv : Dict.find? k (Dict.ofList fs) with
    | some v =>
      obtain ⟨f, hf, hdecode⟩ :=
        exists_of_mem_forall₂ hfs (Dict.mem_of_mem_ofList (Dict.mem_of_find? hv))
      obtain ⟨d, hfind, hd, rfl⟩ := decodeField_eq_ok.mp hdecode
      have hd' : d.Ordered := hinside _ (Dict.mem_of_find? hfind)
      rw [hfind, Option.map_some, Option.map_some, HostData.floatsAtField_of_mem hdistinct hf,
        hfields f hf d v hd' hd]
    | none =>
      -- a key without a value is not declared, and so not in the data
      have hk : k ∉ fields.map Prod.fst := by
        rw [keys_of_decodeField hfs, ← Dict.mem_keys_ofList, Dict.mem_keys, hv]
        exact Bool.false_ne_true
      cases hfind : Dict.find? k entries with
      | none => rfl
      | some d => exact absurd (hdeclared _ (Dict.mem_of_find? hfind)) hk
  have hprojected : Dict.Ascending (Payload.projectEntries (Dict.ofList fs)) :=
    (Dict.ascending_ofList fs).of_keys_eq (keys_projectEntries _)
  exact congrArg HostData.mapping
    (hprojected.ext (hasc.map (HostData.floatsAtField fields)) hfind)

end Forms

variable {t : Ty} {d : HostData} {v : Value}

theorem restores (hresults : t.NoResults) (hdistinct : t.DistinctFields) (henums : t.NoEnums)
    (hkeys : t.LiteralKeys) : Restores t := by
  induction t using Ty.induction with
  | step t ih =>
    have hpart : ∀ u ∈ t.parts, Restores u := fun u hu =>
      ih u hu (hresults.inside u hu) (hdistinct.inside u hu) (henums.inside u hu)
        (hkeys.inside u hu)
    cases t with
    | prim p => exact restores_prim p
    | list => exact restores_list (hpart _ (by simp [Ty.parts]))
    | map => exact restores_map (hkeys.here _ rfl) (hpart _ (by simp [Ty.parts]))
    | maybe s inner =>
      have hinner : inner ∈ (Ty.maybe s inner).parts := List.mem_singleton.mpr rfl
      exact restores_maybe (normalizes (hresults.inside _ hinner) (hdistinct.inside _ hinner))
        (hpart _ hinner)
    | result => cases hresults.here
    | struct _ _ args fields =>
      refine restores_struct hdistinct.here fun f hf => hpart f.2 ?_
      exact List.mem_append_right args (List.mem_map_of_mem hf)
    | enum => exact absurd rfl henums.here
    | function | var => exact fun d v _ h => nomatch h

/-- Without results and fields of one name, what was decoded from any data is decoded again from
its own projection. If there are no enums either, and no keys but texts and truth values, the
projection is the data with floats for the integers that stand for them. -/
theorem decode_project_of_decode (hresults : t.NoResults) (hdistinct : t.DistinctFields)
    (h : decode t d = .ok v) :
    decode t v.project = .ok v ∧
      (t.NoEnums → t.LiteralKeys → d.Ordered → v.project = d.floatsAt t) := by
  constructor
  · exact (normalizes hresults hdistinct d v h).1.decode_project
  · intro henums hkeys hordered
    exact restores hresults hdistinct henums hkeys d v hordered h

/-- Maps from truth values to floats that may be missing in two ways. -/
def gaps : Ty := .map .blank .bool (.maybe .blank (.maybe .blank .float))

/-- An integer stands for a float below two maybes, and null for the outer of them. -/
theorem decode_project_gaps :
    gaps.NoResults ∧ gaps.DistinctFields ∧ gaps.NoEnums ∧ gaps.LiteralKeys ∧
      HostData.Ordered (.mapping [("false", .int 3), ("true", .null)]) ∧
      ∃ v, decode gaps (.mapping [("false", .int 3), ("true", .null)]) = .ok v ∧
        decode gaps v.project = .ok v ∧
        v.project = .mapping [("false", .float (.ofInt 3)), ("true", .null)] := by
  have everywhere {p : Ty → Prop} (hmap : p gaps) (hbool : p .bool)
      (houter : p (.maybe .blank (.maybe .blank .float))) (hinner : p (.maybe .blank .float))
      (hfloat : p .float) : Everywhere Ty.parts p gaps := by
    have hleaf : Everywhere Ty.parts p .bool := .of_leaf rfl hbool
    have hchain : Everywhere Ty.parts p (.maybe .blank (.maybe .blank .float)) := by
      refine .intro houter (List.forall_mem_singleton.mpr ?_)
      exact .intro hinner (List.forall_mem_singleton.mpr (.of_leaf rfl hfloat))
    exact .intro hmap (List.forall_mem_cons.mpr ⟨hleaf, List.forall_mem_singleton.mpr hchain⟩)
  have hresults : gaps.NoResults := everywhere rfl rfl rfl rfl rfl
  have hdistinct : gaps.DistinctFields := everywhere .nil .nil .nil .nil .nil
  have henums : gaps.NoEnums := everywhere nofun nofun nofun nofun nofun
  have hkeys : gaps.LiteralKeys :=
    everywhere (fun _ h => .inr (Option.some.inj h).symm) nofun nofun nofun nofun
  have hordered : HostData.Ordered (.mapping [("false", .int 3), ("true", .null)]) := by
    have hint : (HostData.int 3).Ordered := .of_leaf rfl nofun
    have hnull : HostData.null.Ordered := .of_leaf rfl nofun
    refine HostData.ordered_mapping.mpr ⟨?_, ?_⟩
    · unfold Dict.Ascending
      decide
    · exact List.forall_mem_cons.mpr ⟨hint, List.forall_mem_singleton.mpr hnull⟩
  have hdecode : ∃ v, decode gaps (.mapping [("false", .int 3), ("true", .null)]) = .ok v := by
    exact ⟨_, rfl⟩
  obtain ⟨v, hv⟩ := hdecode
  obtain ⟨hagain, hproject⟩ := decode_project_of_decode hresults hdistinct hv
  exact ⟨hresults, hdistinct, henums, hkeys, hordered, v, hv, hagain,
    hproject henums hkeys hordered⟩

end Value

end TypedValues
