import TypedValues.Proofs.HostData.Json
import TypedValues.Value.Induction

/-!
# The JSON text of a value

The JSON text of a value is read back as the projection of the value: each scalar as what it was,
integers as integers and floats as floats, every text and key as it was, and nothing is left out,
empty lists and maps included. What stands in the way is deep nesting, and floats that are not
finite or that are not what their numerals are worth (`Value.readJson?_jsonText_iff`).
-/

namespace TypedValues.Value

/-- The keys of every map in the value ascend, and so do those in its untyped data, as maps keep
them. -/
def InOrder : Value → Prop :=
  Everywhere children fun v =>
    (∀ entries, v.payload = .map entries → Dict.Ascending entries) ∧
      ∀ d, v.payload = .dynamic d → d.Ordered

theorem inOrder_list {l : Label} {items : List Value} :
    InOrder ⟨l, .list items⟩ ↔ ∀ w ∈ items, w.InOrder := by
  constructor
  · exact Everywhere.inside
  · intro h
    exact .intro ⟨nofun, nofun⟩ h

theorem inOrder_map {l : Label} {entries : Dict Value} :
    InOrder ⟨l, .map entries⟩ ↔ entries.Ascending ∧ ∀ e ∈ entries, e.2.InOrder := by
  constructor
  · intro h
    exact ⟨h.here.1 entries rfl, fun e he => h.inside e.2 (List.mem_map_of_mem he)⟩
  · rintro ⟨hasc, hinside⟩
    refine .intro ⟨?_, nofun⟩ (List.forall_mem_map.mpr hinside)
    rintro _ ⟨rfl⟩
    exact hasc

theorem ordered_project {v : Value} (hv : v.InOrder) : v.project.Ordered := by
  have hleaf {d : HostData} (hd : d.parts = []) (hmap : ∀ entries, d ≠ .mapping entries) :
      d.Ordered := .of_leaf hd fun entries h => absurd h (hmap entries)
  induction v using Value.induction with
  | step label payload ih =>
    rw [project]
    split
    · exact hleaf rfl nofun
    · cases payload with
      | list items =>
        rw [Payload.project, Payload.projectItems_eq_map]
        apply HostData.ordered_seq.mpr
        exact List.forall_mem_map.mpr fun w hw => ih w hw (inOrder_list.mp hv w hw)
      | map entries =>
        obtain ⟨hasc, hinside⟩ := inOrder_map.mp hv
        rw [Payload.project, Payload.projectEntries_eq_map]
        apply HostData.ordered_mapping.mpr
        refine ⟨hasc.map fun _ w => w.project, List.forall_mem_map.mpr ?_⟩
        exact fun e he => ih e.2 (List.mem_map_of_mem he) (hinside e he)
      | dynamic d => exact hv.here.2 d rfl
      | _ => exact hleaf rfl nofun

/-- The JSON text of a value is read back as the projection exactly if the projection nests no
deeper than the limit and every float in it is finite and what its numeral is worth. -/
theorem readJson?_jsonText_iff {v : Value} (hv : v.InOrder) :
    HostData.readJson? v.jsonText = some v.project ↔
      v.project.depth ≤ Json.nestingLimit ∧
        v.project.AllFloats fun x => x.isFinite = true ∧ x.reread? = some x :=
  HostData.readJson?_jsonText (ordered_project hv)

/-- A map of minus zero, a tenth, an integer, a text with escapes and an empty list, under keys of
which one is empty. -/
theorem readJson?_jsonText_measurements :
    let floats : Value := typed (.list .blank .float)
      (.list [float (.ofBits 0x8000000000000000), float (.ofBits 0x3fb999999999999a)])
    let v : Value := typed (.map .blank .str .dynamic)
      (.map [("", int (-1)), ("\"n\"", str "a\tb"), ("größe", floats),
        ("ø", typed (.list .blank .int) (.list []))])
    v.InOrder ∧ v.project.depth ≤ Json.nestingLimit ∧
      (v.project.AllFloats fun x => x.isFinite = true ∧ x.reread? = some x) ∧
      HostData.readJson? v.jsonText = some v.project := by
  intro floats v
  have hfloats : floats.InOrder := by
    refine inOrder_list.mpr ?_
    simp only [List.forall_mem_cons]
    exact ⟨.of_leaf rfl ⟨nofun, nofun⟩, .of_leaf rfl ⟨nofun, nofun⟩, nofun⟩
  have hv : v.InOrder := by
    refine inOrder_map.mpr ⟨?_, ?_⟩
    · show List.Pairwise (· < ·) ["", "\"n\"", "größe", "ø"]
      decide
    · simp only [List.forall_mem_cons]
      exact ⟨.of_leaf rfl ⟨nofun, nofun⟩, .of_leaf rfl ⟨nofun, nofun⟩, hfloats,
        .of_leaf rfl ⟨nofun, nofun⟩, nofun⟩
  have hdepth : v.project.depth ≤ Json.nestingLimit := by decide
  have hreread : v.project.AllFloats fun x => x.isFinite = true ∧ x.reread? = some x := by
    have hzero : (Binary64.ofBits 0x8000000000000000).isFinite = true ∧
        (Binary64.ofBits 0x8000000000000000).reread? = some (.ofBits 0x8000000000000000) := by
      decide
    have htenth : (Binary64.ofBits 0x3fb999999999999a).isFinite = true ∧
        (Binary64.ofBits 0x3fb999999999999a).reread? = some (.ofBits 0x3fb999999999999a) := by
      decide +kernel
    show HostData.AllFloats _ (.mapping [("", .int (-1)), ("\"n\"", .str "a\tb"),
      ("größe", .seq [.float (.ofBits 0x8000000000000000), .float (.ofBits 0x3fb999999999999a)]),
      ("ø", .seq [])])
    simp [HostData.allFloats_iff_parts, HostData.parts, HostData.allFloats_float, hzero, htenth]
  exact ⟨hv, hdepth, hreread, (readJson?_jsonText_iff hv).mpr ⟨hdepth, hreread⟩⟩

/-- Floats that are written short do not stand in the way. -/
theorem readJson?_jsonText_of_writtenShort {v : Value} (hv : v.InOrder)
    (hdepth : v.project.depth ≤ Json.nestingLimit)
    (hfloats : v.project.AllFloats Binary64.WrittenShort) :
    HostData.readJson? v.jsonText = some v.project := by
  apply (HostData.readJson?_jsonText (ordered_project hv)).mpr
  refine ⟨hdepth, hfloats.mono ?_⟩
  intro d hd x hx
  exact Binary64.reread?_of_writtenShort (hd x hx)

end TypedValues.Value
