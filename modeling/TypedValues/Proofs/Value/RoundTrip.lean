import TypedValues.Proofs.Value.Normalization
import TypedValues.Proofs.Value.Reachable
import TypedValues.Proofs.Value.Views

/-!
# Round trips

A value whose contents fit its type, and whose type says all that its projection leaves out, is
decoded again from its projection, up to the stamps of types (`Value.decode_project_of_hasTy`).
It is up to stamps one of the normal forms of its type (`Value.HasTy.bareNormal`), and stamps are
not projected.
-/

namespace TypedValues

open Outcome

/-- The types that say all that a projection leaves out. Null would not tell an empty maybe from a
filled one if the inner type were a maybe or untyped data. -/
inductive Ty.Projectable : Ty → Prop
  | prim {p : Primitive} (h : p ≠ .void) : Projectable (.prim p)
  | enum {s : Stamp} {name : String} {members : List (String × Int64)} :
      Projectable (.enum s name members)
  | list {s : Stamp} {elem : Ty} (h : Projectable elem) : Projectable (.list s elem)
  | map {s : Stamp} {key value : Ty} (hkey : key ∈ [Ty.str, .int, .bool, .float])
      (h : Projectable value) : Projectable (.map s key value)
  | maybe {s : Stamp} {inner : Ty} (hmaybe : inner.isMaybe = false) (hdynamic : inner ≠ .dynamic)
      (h : Projectable inner) : Projectable (.maybe s inner)
  | struct {s : Stamp} {name : String} {args : List Ty} {fields : List (String × Ty)}
      (hdistinct : (fields.map Prod.fst).Nodup) (h : ∀ f ∈ fields, Projectable f.2) :
      Projectable (.struct s name args fields)

/-- The label records the type, up to stamps, and tells of no arm of a result. -/
structure Label.Plain (t : Ty) (l : Label) : Prop where
  ty_eq : l.ty.bare = t.bare
  noArm : l.flags.branch? = none

/-- The values whose contents fit the type at every depth. A filled maybe has the contents of a
value of the inner type. -/
inductive Value.HasTy : Ty → Value → Prop
  | str {l : Label} (hl : l.Plain .str) (s : String) : HasTy .str ⟨l, .str s⟩
  | int {l : Label} (hl : l.Plain .int) (n : Int64) : HasTy .int ⟨l, .int n⟩
  | bool {l : Label} (hl : l.Plain .bool) (b : Bool) : HasTy .bool ⟨l, .bool b⟩
  | float {l : Label} (hl : l.Plain .float) (x : Binary64) : HasTy .float ⟨l, .float x⟩
  | dynamic {l : Label} (hl : l.Plain .dynamic) (d : HostData) : HasTy .dynamic ⟨l, .dynamic d⟩
  | list {s : Stamp} {elem : Ty} {l : Label} {items : List Value} (hl : l.Plain (.list s elem))
      (h : ∀ v ∈ items, HasTy elem v) : HasTy (.list s elem) ⟨l, .list items⟩
  | map {s : Stamp} {key value : Ty} {l : Label} {entries : Dict Value}
      (hl : l.Plain (.map s key value)) (hasc : entries.Ascending)
      (hkeys : ∀ e ∈ entries, ∃ k, KeyOf key k ∧ k.keyText key = .ok e.1)
      (h : ∀ e ∈ entries, HasTy value e.2) : HasTy (.map s key value) ⟨l, .map entries⟩
  | empty {s : Stamp} {inner : Ty} {l : Label} (hl : l.Plain (.maybe s inner))
      (hnone : l.flags.none = true) : HasTy (.maybe s inner) ⟨l, .absent⟩
  | filled {s : Stamp} {inner : Ty} {l : Label} {p : Payload} (hl : l.Plain (.maybe s inner))
      (h : HasTy inner (typed inner p)) : HasTy (.maybe s inner) ⟨l, p⟩
  | struct {s : Stamp} {name : String} {args : List Ty} {fields : List (String × Ty)} {l : Label}
      {entries : Dict Value} (hl : l.Plain (.struct s name args fields))
      (hasc : entries.Ascending) (hdeclared : ∀ e ∈ entries, e.1 ∈ fields.map Prod.fst)
      (hpresent : ∀ f ∈ fields, f.1 ∈ entries.keys)
      (h : ∀ f ∈ fields, ∀ v, entries.find? f.1 = some v → HasTy f.2 v) :
      HasTy (.struct s name args fields) ⟨l, .map entries⟩
  | member {s : Stamp} {name : String} {members : List (String × Int64)} {l : Label}
      {m : String × Int64} (hl : l.Plain (.enum s name members)) (h : m ∈ members) :
      HasTy (.enum s name members) ⟨l, .int m.2⟩

/-! ## Labels without narrowing -/

theorem Flags.eq_of_branch? {f : Flags} (h : f.branch? = Option.none) :
    f = { Flags.empty with none := f.none } := by
  obtain ⟨ok, err, none⟩ := f
  cases ok with
  | true => contradiction
  | false =>
    cases err with
    | true => contradiction
    | false => rfl

namespace Value

variable {t : Ty} {l : Label} {p q : Payload}

/-- An upright value that is no arm has a label that values of its type are made with. -/
theorem Upright.bare_label {v : Value} (h : v.Upright) (hl : v.label.Plain t) :
    v.label.bare = ({ Label.ofTy t with flags := { Flags.empty with none := v.isNone } } : Label).bare := by
  have horigin : v.label.origin = none := h.origin_eq_none hl.noArm
  refine h.coherent.bare_congr ⟨rfl, rfl⟩ hl.ty_eq (Flags.eq_of_branch? hl.noArm) ?_
  rw [horigin]
  rfl

theorem bare_mk (l : Label) (p : Payload) :
    bare ⟨l, p⟩ = ⟨l.bare, p.mapLabels Label.bare⟩ := by
  rw [bare, mapLabels]

theorem bare_typed_eq (h : Upright ⟨l, p⟩) (hl : l.Plain t) (hp : p ≠ .absent)
    (hq : q.mapLabels Label.bare = p.mapLabels Label.bare) : (typed t q).bare = bare ⟨l, p⟩ := by
  have hnone : isNone ⟨l, p⟩ = false := Bool.eq_false_iff.mpr fun hnone => hp (h.empty hnone)
  have hlabel := h.bare_label hl
  rw [hnone] at hlabel
  rw [typed, bare_mk, bare_mk, hq, hlabel]
  rfl

theorem bare_noneLabel_eq (h : Upright ⟨l, .absent⟩) (hl : l.Plain t) (hnone : l.flags.none = true) :
    bare ⟨noneLabel t, .absent⟩ = bare ⟨l, .absent⟩ := by
  have hlabel := h.bare_label hl
  rw [show isNone ⟨l, .absent⟩ = true from hnone] at hlabel
  rw [bare_mk, bare_mk, hlabel]
  rfl

/-! ## Well-typed values are normal forms -/

/-- A normal form projects to null only if the type has null for a value. -/
theorem Normal.project_ne_null {v : Value} (h : v.Normal t) (hmaybe : t.isMaybe = false)
    (hdynamic : t ≠ .dynamic) : v.project ≠ .null := by
  cases h with
  | dynamic => contradiction
  | empty | filled => contradiction
  | _ => nofun

/-- Up to stamps the value is a normal form of the type. -/
def BareNormal (t : Ty) (v : Value) : Prop := ∃ w : Value, w.Normal t ∧ w.bare = v.bare

section Forms

variable {s : Stamp} {name : String} {key elem inner value : Ty} {args : List Ty}
  {fields : List (String × Ty)} {items : List Value} {entries : Dict Value}

theorem bareNormal_list (hv : Upright ⟨l, .list items⟩) (hl : l.Plain (.list s elem))
    (hitems : ∀ v ∈ items, BareNormal elem v) : BareNormal (.list s elem) ⟨l, .list items⟩ := by
  obtain ⟨ws, hall⟩ := exists_forall₂ hitems
  have hbare : Payload.mapLabels Label.bare (.list ws) =
      Payload.mapLabels Label.bare (.list items) := by
    rw [Payload.mapLabels, Payload.mapLabels, Payload.mapLabelsItems_eq_map,
      Payload.mapLabelsItems_eq_map]
    exact congrArg Payload.list (map_eq_map_iff_forall₂.mpr (hall.imp fun _ _ h => h.2.symm)).symm
  refine ⟨typed (.list s elem) (.list ws), .list ?_, bare_typed_eq hv hl (by simp) hbare⟩
  intro w hw
  obtain ⟨v, -, hnormal, -⟩ := exists_of_mem_forall₂ hall hw
  exact hnormal

/-- Values that are chosen for each entry up to stamps make a dictionary with the same keys. -/
theorem exists_bare_entries {P : String → Value → Prop}
    (h : ∀ e ∈ entries, ∃ w, P e.1 w ∧ w.bare = e.2.bare) :
    ∃ es : Dict Value, es.keys = entries.keys ∧ (∀ e ∈ es, P e.1 e.2) ∧
      Payload.mapLabels Label.bare (.map es) = Payload.mapLabels Label.bare (.map entries) := by
  have hentry : ∀ e ∈ entries, ∃ e' : String × Value,
      e.1 = e'.1 ∧ P e'.1 e'.2 ∧ e.2.bare = e'.2.bare := by
    intro e he
    obtain ⟨w, hw, hbare⟩ := h e he
    exact ⟨(e.1, w), rfl, hw, hbare.symm⟩
  obtain ⟨es, hall⟩ := exists_forall₂ hentry
  refine ⟨es, (map_eq_map_iff_forall₂.mpr (hall.imp fun _ _ h => h.1)).symm, ?_, ?_⟩
  · intro e' he'
    obtain ⟨e, -, -, hw, -⟩ := exists_of_mem_forall₂ hall he'
    exact hw
  · rw [Payload.mapLabels, Payload.mapLabels, Payload.mapLabelsEntries_eq_map,
      Payload.mapLabelsEntries_eq_map]
    exact congrArg Payload.map
      (map_eq_map_iff_forall₂.mpr (hall.imp fun _ _ h => Prod.ext h.1 h.2.2)).symm

theorem bareNormal_map (hv : Upright ⟨l, .map entries⟩) (hl : l.Plain (.map s key value))
    (hasc : entries.Ascending)
    (hkeys : ∀ e ∈ entries, ∃ k, ofKeyText? key e.1 = .ok k ∧ k.keyText key = .ok e.1)
    (hvalues : ∀ e ∈ entries, BareNormal value e.2) :
    BareNormal (.map s key value) ⟨l, .map entries⟩ := by
  obtain ⟨es, hsame, hnormal, hbare⟩ := exists_bare_entries (P := fun _ w => w.Normal value) hvalues
  refine ⟨typed (.map s key value) (.map es), .map (hasc.of_keys_eq hsame) ?_ hnormal,
    bare_typed_eq hv hl (by simp) hbare⟩
  intro e he
  obtain ⟨e', he', heq⟩ := Dict.exists_mem_of_keys_eq hsame he
  rw [← heq]
  exact hkeys e' he'

/-- The contents of an inner value fill the maybe, unless the inner type has null for a value. -/
theorem bareNormal_filled (hv : Upright ⟨l, p⟩) (hl : l.Plain (.maybe s inner))
    (hmaybe : inner.isMaybe = false) (hdynamic : inner ≠ .dynamic)
    (hinner : BareNormal inner (typed inner p)) : BareNormal (.maybe s inner) ⟨l, p⟩ := by
  obtain ⟨w, hnormal, hbare⟩ := hinner
  have hne : w.project ≠ .null := hnormal.project_ne_null hmaybe hdynamic
  have hw : w = typed inner w.payload := hnormal.eq_typed hne
  rw [hnormal.project_eq] at hne
  have hpayload : w.payload.mapLabels Label.bare = p.mapLabels Label.bare := by
    rw [hw, typed, typed, bare_mk, bare_mk] at hbare
    exact congrArg Value.payload hbare
  -- contents that are absent would project to null
  have hp : p ≠ .absent := by
    rintro rfl
    rw [← Payload.project_bare, hpayload] at hne
    exact hne rfl
  rw [hw] at hnormal
  exact ⟨_, .filled hnormal hne, bare_typed_eq hv hl hp hpayload⟩

theorem bareNormal_struct (hv : Upright ⟨l, .map entries⟩)
    (hl : l.Plain (.struct s name args fields)) (hdistinct : (fields.map Prod.fst).Nodup)
    (hasc : entries.Ascending) (hdeclared : ∀ e ∈ entries, e.1 ∈ fields.map Prod.fst)
    (hpresent : ∀ f ∈ fields, f.1 ∈ entries.keys)
    (hfields : ∀ f ∈ fields, ∀ v, entries.find? f.1 = some v → BareNormal f.2 v) :
    BareNormal (.struct s name args fields) ⟨l, .map entries⟩ := by
  have hentry : ∀ e ∈ entries, ∃ w : Value,
      (∀ f ∈ fields, f.1 = e.1 → w.Normal f.2) ∧ w.bare = e.2.bare := by
    intro e he
    obtain ⟨f, hf, hname⟩ := List.mem_map.mp (hdeclared e he)
    have hfind : entries.find? f.1 = some e.2 := by
      rw [hname]
      exact hasc.find?_eq_some.mpr he
    obtain ⟨w, hw, hbare⟩ := hfields f hf e.2 hfind
    refine ⟨w, ?_, hbare⟩
    -- no other field has the name
    intro g hg hsame
    obtain rfl := List.inj_on_of_nodup_map hdistinct hg hf (hsame.trans hname.symm)
    exact hw
  obtain ⟨es, hsame, hnormal, hbare⟩ :=
    exists_bare_entries (P := fun k w => ∀ f ∈ fields, f.1 = k → w.Normal f.2) hentry
  refine ⟨typed (.struct s name args fields) (.map es),
    .struct (hasc.of_keys_eq hsame) ?_ ?_ ?_, bare_typed_eq hv hl (by simp) hbare⟩
  · intro e he
    obtain ⟨e', he', heq⟩ := Dict.exists_mem_of_keys_eq hsame he
    rw [← heq]
    exact hdeclared e' he'
  · rw [hsame]
    exact hpresent
  · intro f hf w hw
    exact hnormal (f.1, w) (Dict.mem_of_find? hw) f hf rfl

/-- The text of a key that is no untyped data is read as a key that is written as it. -/
theorem exists_ofKeyText?_of_keyText {k : Value} {text : String} (hk : KeyOf key k)
    (hkey : key ∈ [Ty.str, .int, .bool, .float]) (htext : k.keyText key = .ok text) :
    ∃ k', ofKeyText? key text = .ok k' ∧ k'.keyText key = .ok text := by
  have hne : key ≠ .dynamic := by
    rintro rfl
    simp at hkey
  obtain ⟨k', hread, -, hagain⟩ := hk.ofKeyText?_keyText (hk.fitsText hne) htext
  exact ⟨k', hread, hagain⟩

end Forms

/-- By induction on the value: up to stamps it is the normal form put together from those of its
parts. -/
theorem HasTy.bareNormal {v : Value} (h : v.HasTy t) :
    t.Projectable → v.UprightInside → BareNormal t v := by
  induction h with
  | str hl s => exact fun _ hv => ⟨_, .str s, bare_typed_eq hv.here hl nofun rfl⟩
  | int hl n => exact fun _ hv => ⟨_, .int n, bare_typed_eq hv.here hl nofun rfl⟩
  | bool hl b => exact fun _ hv => ⟨_, .bool b, bare_typed_eq hv.here hl nofun rfl⟩
  | float hl x => exact fun _ hv => ⟨_, .float x, bare_typed_eq hv.here hl nofun rfl⟩
  | dynamic hl d => exact fun _ hv => ⟨_, .dynamic d, bare_typed_eq hv.here hl nofun rfl⟩
  | list hl _ ih =>
    intro ht hv
    cases ht with
    | list helem => exact bareNormal_list hv.here hl fun v hv' => ih v hv' helem (hv.inside v hv')
  | map hl hasc hkeys _ ih =>
    intro ht hv
    cases ht with
    | map hkey hvalue =>
      refine bareNormal_map hv.here hl hasc (fun e he => ?_) fun e he => ?_
      · obtain ⟨k, hk, htext⟩ := hkeys e he
        exact exists_ofKeyText?_of_keyText hk hkey htext
      · exact ih e he hvalue (hv.inside e.2 (List.mem_map_of_mem he))
  | empty hl hnone => exact fun _ hv => ⟨_, .empty, bare_noneLabel_eq hv.here hl hnone⟩
  | @filled _ inner _ p hl _ ih =>
    intro ht hv
    cases ht with
    | maybe hmaybe hdynamic hinner =>
      have hp : BareNormal inner (typed inner p) := ih hinner (.intro (.typed inner p) hv.inside)
      exact bareNormal_filled hv.here hl hmaybe hdynamic hp
  | struct hl hasc hdeclared hpresent _ ih =>
    intro ht hv
    cases ht with
    | struct hdistinct hfields =>
      refine bareNormal_struct hv.here hl hdistinct hasc hdeclared hpresent fun f hf v hfind => ?_
      have hinside : v.UprightInside :=
        hv.inside v (List.mem_map.mpr ⟨(f.1, v), Dict.mem_of_find? hfind, rfl⟩)
      exact ih f hf v hfind (hfields f hf) hinside
  | member hl h => exact fun _ hv => ⟨_, .member h, bare_typed_eq hv.here hl (by simp) rfl⟩

/-- A value that fits its type at every depth is decoded from its projection: the decoded value
has the same types up to stamps, the same kinds, narrowing and origins, and the same contents.
That labels are upright is no condition on what the operations lead to
(`Reachable.uprightInside`). -/
theorem decode_project_of_hasTy {v : Value} (ht : t.Projectable) (hv : v.UprightInside)
    (h : v.HasTy t) : ∃ w, decode t v.project = .ok w ∧ w.bare = v.bare := by
  obtain ⟨w, hnormal, hbare⟩ := h.bareNormal ht hv
  refine ⟨w, ?_, hbare⟩
  rw [← project_bare, ← hbare, project_bare]
  exact hnormal.decode_project

def samples : Ty := .maybe .blank (.list .blank .int)

/-- Samples by the time they were taken at. -/
def series : Ty := .map .blank .float samples

def unit : Ty := .enum .blank "Unit" [("Celsius", 0)]
def reading : Ty := .struct .blank "Reading" [] [("series", series), ("unit", unit)]

/-- Samples at minus zero, and missing ones at no time. -/
def seriesEntries : Dict Value :=
  [("0", typed samples (.list [int 1])), ("NaN", ⟨noneLabel samples, .absent⟩)]

def readingFields : Dict Value :=
  [("series", typed series (.map seriesEntries)), ("unit", typed unit (.int 0))]

theorem decode_project_reading :
    reading.Projectable ∧ (typed reading (.map readingFields)).UprightInside ∧
      (typed reading (.map readingFields)).HasTy reading ∧
      ∃ w, decode reading (typed reading (.map readingFields)).project = .ok w ∧
        w.bare = (typed reading (.map readingFields)).bare := by
  have hprojectable : reading.Projectable := by
    have hseries : series.Projectable :=
      .map (by simp) (.maybe rfl nofun (.list (.prim nofun)))
    refine .struct (by decide) ?_
    exact List.forall_mem_cons.mpr ⟨hseries, List.forall_mem_singleton.mpr .enum⟩
  have hplain (t : Ty) : (Label.ofTy t).Plain t := ⟨rfl, rfl⟩
  have hupright : (typed reading (.map readingFields)).UprightInside := by
    have hone : (int 1).UprightInside := .of_leaf rfl (.typed _ _)
    have hsamples : (typed samples (.list [int 1])).UprightInside :=
      .intro (.typed _ _) (List.forall_mem_singleton.mpr hone)
    have hmissing : UprightInside ⟨noneLabel samples, .absent⟩ :=
      .of_leaf rfl (.noneOf (t := samples) rfl)
    have hseries : (typed series (.map seriesEntries)).UprightInside :=
      .intro (.typed _ _)
        (List.forall_mem_cons.mpr ⟨hsamples, List.forall_mem_singleton.mpr hmissing⟩)
    have hunit : (typed unit (.int 0)).UprightInside := .of_leaf rfl (.typed _ _)
    exact .intro (.typed _ _)
      (List.forall_mem_cons.mpr ⟨hseries, List.forall_mem_singleton.mpr hunit⟩)
  have htyped : (typed reading (.map readingFields)).HasTy reading := by
    have hsamples : (typed samples (.list [int 1])).HasTy samples :=
      .filled (hplain _) (.list (hplain _) (List.forall_mem_singleton.mpr (.int (hplain _) 1)))
    have hmissing : HasTy samples ⟨noneLabel samples, .absent⟩ := .empty ⟨rfl, rfl⟩ rfl
    have hseries : (typed series (.map seriesEntries)).HasTy series := by
      refine .map (hplain _) ?_ ?_ ?_
      · unfold Dict.Ascending
        decide
      · refine List.forall_mem_cons.mpr ⟨⟨_, .float (.number true .zero), rfl⟩, ?_⟩
        exact List.forall_mem_singleton.mpr ⟨_, .float .nan, rfl⟩
      · exact List.forall_mem_cons.mpr ⟨hsamples, List.forall_mem_singleton.mpr hmissing⟩
    have hunit : (typed unit (.int 0)).HasTy unit :=
      .member (m := ("Celsius", 0)) (hplain _) List.mem_cons_self
    refine .struct (hplain _) ?_ ?_ ?_ ?_
    · unfold Dict.Ascending
      decide
    · decide
    · decide
    · refine List.forall_mem_cons.mpr ⟨?_, List.forall_mem_singleton.mpr ?_⟩
      · rintro v ⟨⟩
        exact hseries
      · rintro v ⟨⟩
        exact hunit
  exact ⟨hprojectable, hupright, htyped, decode_project_of_hasTy hprojectable hupright htyped⟩

end Value

end TypedValues
