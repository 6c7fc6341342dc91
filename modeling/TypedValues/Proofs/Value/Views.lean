import TypedValues.Proofs.Value.Labels

/-!
# Views of a value

What is said of a value often leaves something of its labels out: the stamps of the types in
them, or the types altogether. Such a view rewrites the label of every node and nothing else.
-/

namespace TypedValues

mutual

/-- The value with the label of every node rewritten. -/
def Value.mapLabels (f : Label → Label) : Value → Value
  | ⟨label, payload⟩ => ⟨f label, payload.mapLabels f⟩

def Payload.mapLabels (f : Label → Label) : Payload → Payload
  | .absent => .absent
  | .bool b => .bool b
  | .int n => .int n
  | .float x => .float x
  | .str s => .str s
  | .list items => .list (Payload.mapLabelsItems f items)
  | .map entries => .map (Payload.mapLabelsEntries f entries)
  | .function c => .function c
  | .dynamic d => .dynamic d

def Payload.mapLabelsItems (f : Label → Label) : List Value → List Value
  | [] => []
  | v :: rest => v.mapLabels f :: Payload.mapLabelsItems f rest

def Payload.mapLabelsEntries (f : Label → Label) : List (String × Value) → List (String × Value)
  | [] => []
  | (k, v) :: rest => (k, v.mapLabels f) :: Payload.mapLabelsEntries f rest

end

namespace Payload

variable {f : Label → Label}

theorem mapLabelsItems_eq_map (items : List Value) :
    mapLabelsItems f items = items.map (Value.mapLabels f) := by
  induction items with
  | nil => rfl
  | cons v rest ih => rw [mapLabelsItems, ih, List.map_cons]

theorem mapLabelsEntries_eq_map (entries : List (String × Value)) :
    mapLabelsEntries f entries = entries.map fun e => (e.1, e.2.mapLabels f) := by
  induction entries with
  | nil => rfl
  | cons e rest ih =>
    obtain ⟨k, v⟩ := e
    rw [mapLabelsEntries, ih, List.map_cons]

theorem mapLabels_eq_mapSlots (p : Payload) :
    p.mapLabels f = p.mapSlots fun _ v => v.mapLabels f := by
  cases p with
  | list items => rw [mapLabels, mapSlots, mapLabelsItems_eq_map]
  | map entries => rw [mapLabels, mapSlots, mapLabelsEntries_eq_map]
  | _ => rfl

end Payload

theorem Value.mapLabels_mk (f : Label → Label) (l : Label) (p : Payload) :
    Value.mapLabels f ⟨l, p⟩ = ⟨f l, p.mapSlots fun _ v => v.mapLabels f⟩ := by
  rw [Value.mapLabels, Payload.mapLabels_eq_mapSlots]

/-! ## Without stamps -/

def Label.bare (l : Label) : Label := { l with ty := l.ty.bare, origin := l.origin.map Ty.bare }

/-- The value with bare types at every node: two values are one up to stamps if these are. -/
def Value.bare : Value → Value := mapLabels Label.bare

/-- Two coherent labels are one up to stamps if their types, flags and origins are. -/
theorem Label.Coherent.bare_congr {l m : Label} (hl : l.Coherent) (hm : m.Coherent)
    (hty : l.ty.bare = m.ty.bare) (hflags : l.flags = m.flags)
    (horigin : l.origin.map Ty.bare = m.origin.map Ty.bare) : l.bare = m.bare := by
  have hkind : l.kind = m.kind := by
    rw [hl.kind_eq, hm.kind_eq, ← Ty.kind_bare l.ty, hty, Ty.kind_bare]
  have hname : l.name = m.name := by
    rw [hl.name_eq, hm.name_eq, ← Ty.name_bare l.ty, hty, Ty.name_bare]
  simp only [bare, hty, hkind, hname, hflags, horigin]

/-- A view that keeps the projections of the values right inside keeps that of the contents. -/
theorem Payload.project_mapLabels {f : Label → Label} {p : Payload}
    (h : ∀ v ∈ p.children, (v.mapLabels f).project = v.project) :
    (p.mapLabels f).project = p.project := by
  cases p with
  | list items =>
    rw [mapLabels, project, project, mapLabelsItems_eq_map, projectItems_eq_map,
      projectItems_eq_map, List.map_map]
    exact congrArg HostData.seq (List.map_congr_left h)
  | map entries =>
    rw [mapLabels, project, project, mapLabelsEntries_eq_map, projectEntries_eq_map,
      projectEntries_eq_map, List.map_map]
    refine congrArg HostData.mapping (List.map_congr_left ?_)
    intro e he
    exact Prod.ext rfl (h e.2 (List.mem_map_of_mem he))
  | _ => rfl

/-- A view that keeps kinds and names keeps the projection. -/
theorem Value.project_mapLabels {f : Label → Label} (hkind : ∀ l, (f l).kind = l.kind)
    (hname : ∀ l, (f l).name = l.name) (v : Value) : (v.mapLabels f).project = v.project := by
  induction v using Value.induction with
  | step label payload ih =>
    rw [mapLabels, project, project, hkind, hname, Payload.project_mapLabels ih]

/-- The projection does not show the stamps of types. -/
theorem Value.project_bare (v : Value) : v.bare.project = v.project :=
  project_mapLabels (f := Label.bare) (fun _ => rfl) (fun _ => rfl) v

theorem Payload.project_bare (p : Payload) : (p.mapLabels Label.bare).project = p.project := by
  have h := (Value.typed .void p).project_bare
  rwa [Value.bare, Value.typed, Value.mapLabels] at h

/-! ## Without types -/

/-- The label with nothing in it but the narrowing. -/
def Label.untyped (l : Label) : Label := { ofTy .void with flags := l.flags }

/-- The value with nothing in its labels but the narrowing. -/
def Value.untyped : Value → Value := mapLabels Label.untyped

/-- Refinement rewrites types only. -/
theorem Value.untyped_refine (declared : Ty) (v : Value) :
    (v.refine declared).untyped = v.untyped := by
  induction v using Value.induction generalizing declared with
  | step label payload ih =>
    have hlabel : (label.refine declared).1.untyped = label.untyped := by
      rw [Label.untyped, Label.untyped, Label.flags_refine]
    rw [refine_mk, untyped, mapLabels_mk, mapLabels_mk, hlabel]
    cases (label.refine declared).2 with
    | none => rfl
    | some d =>
      rw [Payload.refineFor, Payload.refine_eq_mapSlots, Payload.mapSlots_mapSlots]
      congr 1
      apply Payload.mapSlots_congr
      intro c hc
      rw [Payload.refineSlot]
      cases d.slot? c.1 with
      | none => rfl
      | some u => exact ih c.2 (Payload.mem_children.mpr ⟨c.1, hc⟩) u

theorem Payload.untyped_refineSlot (declared : Ty) (s : Slot) (v : Value) :
    (refineSlot declared s v).untyped = v.untyped := by
  unfold refineSlot
  cases declared.slot? s with
  | none => rfl
  | some t => exact Value.untyped_refine t v

/-! ## With types only -/

/-- The label with nothing in it but the type, and what follows from that. -/
def Label.typing (l : Label) : Label := ofTy l.ty.bare

/-- The value with nothing in its labels but types: two values have the same types at every node
if these are one. -/
def Value.typing : Value → Value := mapLabels Label.typing

theorem Value.ty_typing (v : Value) : v.typing.ty = v.ty.bare := by
  obtain ⟨l, p⟩ := v
  rw [typing, mapLabels]
  rfl

/-- Values of one type have the same types at every node if their contents have. -/
theorem Value.typing_mk_eq_iff {l m : Label} {p q : Payload} (hty : l.ty.bare = m.ty.bare) :
    typing ⟨l, p⟩ = typing ⟨m, q⟩ ↔ p.mapLabels Label.typing = q.mapLabels Label.typing := by
  rw [typing, mapLabels, mapLabels, Label.typing, Label.typing, hty, Value.mk.injEq,
    and_iff_right rfl]

/-- Refinement of contents keeps the types in them exactly if it keeps those in each value right
inside. -/
theorem Payload.typing_refine_eq_iff (declared : Ty) (p : Payload) :
    (p.refine declared).mapLabels Label.typing = p.mapLabels Label.typing ↔
      ∀ c ∈ p.slots, (refineSlot declared c.1 c.2).typing = c.2.typing := by
  rw [refine_eq_mapSlots, mapLabels_eq_mapSlots, mapLabels_eq_mapSlots, mapSlots_mapSlots]
  constructor
  · exact eq_of_mapSlots_eq
  · intro h
    exact mapSlots_congr h

end TypedValues
