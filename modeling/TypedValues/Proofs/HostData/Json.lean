import TypedValues.HostData.Json
import TypedValues.Proofs.Binary64.Rereading
import TypedValues.Proofs.HostData.Reading

/-!
# Plain JSON texts read back

A plain text has no marks that tell an integer from a float or a float from nothing. They are told
apart by their numerals: that of an integer has neither point nor power of ten and that of a float
always has one of them (`Binary64.toJsonInt?_numeral`), while a float that is not finite is written
as null. So data in order is read back from its text exactly if it nests no deeper than the limit
and every float in it is finite and is what its own numeral is worth
(`HostData.readJson?_jsonText`).
-/

namespace TypedValues.HostData

variable {d : HostData} {items : List HostData} {entries : List (String × HostData)}

theorem sizeOf_lt_of_mem_parts {d e : HostData} (h : e ∈ d.parts) : sizeOf e < sizeOf d := by
  cases d with
  | null | bool | int | float | str => contradiction
  | seq items =>
    have : sizeOf e < sizeOf items := List.sizeOf_lt_of_mem h
    rw [seq.sizeOf_spec]
    omega
  | mapping entries =>
    obtain ⟨entry, hentry, rfl⟩ := List.mem_map.mp h
    have := sizeOf_snd_lt_of_mem hentry
    rw [mapping.sizeOf_spec]
    omega

/-- What holds of data whenever it holds of the data right inside it holds of all data. -/
theorem induction {motive : HostData → Prop}
    (step : ∀ d, (∀ e ∈ d.parts, motive e) → motive d) (d : HostData) : motive d :=
  step d fun e _ => induction step e
termination_by sizeOf d
decreasing_by exact sizeOf_lt_of_mem_parts ‹_›

/-! ## Floats in data -/

/-- `p` holds of every float in the data. -/
def AllFloats (p : Binary64 → Prop) : HostData → Prop :=
  Everywhere parts fun d => ∀ x, d = float x → p x

variable {p : Binary64 → Prop}

theorem allFloats_float {x : Binary64} : (float x).AllFloats p ↔ p x := by
  constructor
  · intro h
    exact h.here x rfl
  · intro h
    refine .of_leaf rfl ?_
    rintro _ ⟨rfl⟩
    exact h

/-- Of all data but a float only the parts matter. -/
theorem allFloats_iff_parts (h : ∀ x, d ≠ float x) :
    d.AllFloats p ↔ ∀ e ∈ d.parts, e.AllFloats p := by
  constructor
  · exact Everywhere.inside
  · exact .intro fun x hx => absurd hx (h x)

/-! ## Depth -/

mutual

/-- How many sequences and mappings are inside one another at most. -/
def depth : HostData → Nat
  | seq items => itemsDepth items + 1
  | mapping entries => entriesDepth entries + 1
  | _ => 0

def itemsDepth : List HostData → Nat
  | [] => 0
  | d :: rest => max d.depth (itemsDepth rest)

def entriesDepth : List (String × HostData) → Nat
  | [] => 0
  | (_, d) :: rest => max d.depth (entriesDepth rest)

end

theorem floatJson_cases (x : Binary64) :
    (x.isFinite = false ∧ floatJson x = .null) ∨
      ∃ negative m, x = .number negative m ∧ x.isFinite = true ∧
        floatJson x = .number (Binary64.numeral .json negative m) := by
  cases x with
  | nan _ _ => exact .inl ⟨rfl, rfl⟩
  | number negative m =>
    cases hm : m.isFinite with
    | false => exact .inl ⟨hm, by rw [floatJson, hm]; rfl⟩
    | true => exact .inr ⟨negative, m, rfl, hm, by rw [floatJson, hm]; rfl⟩

mutual

theorem depth_toJson : ∀ d : HostData, d.toJson.depth = d.depth
  | null => rfl
  | bool _ => rfl
  | int _ => rfl
  | float x => by
    obtain ⟨-, hx⟩ | ⟨_, _, -, -, hx⟩ := floatJson_cases x <;> rw [toJson, hx] <;> rfl
  | str _ => rfl
  | seq items => by rw [toJson, Json.depth, itemsDepth_itemsToJson items, depth]
  | mapping entries => by rw [toJson, Json.depth, membersDepth_entriesToJson entries, depth]

theorem itemsDepth_itemsToJson :
    ∀ items : List HostData, Json.itemsDepth (itemsToJson items) = itemsDepth items
  | [] => rfl
  | d :: rest => by
    rw [itemsToJson, Json.itemsDepth, itemsDepth, depth_toJson d, itemsDepth_itemsToJson rest]

theorem membersDepth_entriesToJson :
    ∀ entries : List (String × HostData),
      Json.membersDepth (entriesToJson entries) = entriesDepth entries
  | [] => rfl
  | (k, d) :: rest => by
    rw [entriesToJson, Json.membersDepth, entriesDepth, depth_toJson d,
      membersDepth_entriesToJson rest]

end

/-! ## Trees -/

theorem itemsToJson_eq_map (items : List HostData) : itemsToJson items = items.map toJson := by
  induction items with
  | nil => rfl
  | cons d rest ih => rw [itemsToJson, ih, List.map_cons]

theorem entriesToJson_eq_map (entries : List (String × HostData)) :
    entriesToJson entries = entries.map fun e => (e.1, e.2.toJson) := by
  induction entries with
  | nil => rfl
  | cons e rest ih => rw [entriesToJson, ih, List.map_cons]

theorem parts_toJson (d : HostData) : d.toJson.parts = d.parts.map toJson := by
  cases d with
  | float x => obtain ⟨-, hx⟩ | ⟨_, _, -, -, hx⟩ := floatJson_cases x <;> rw [toJson, hx] <;> rfl
  | seq items => rw [toJson, itemsToJson_eq_map]; rfl
  | mapping entries =>
    rw [toJson, entriesToJson_eq_map, Json.parts, parts, List.map_map, List.map_map]
    rfl
  | _ => rfl

theorem legal_toJson (d : HostData) : d.toJson.Legal := by
  induction d using HostData.induction with
  | step d ih =>
    refine .intro ?_ ?_
    · intro n hn
      cases d with
      | int i =>
        cases hn
        exact ⟨Numeral.legal_ofInt _, Numeral.allowsNumeral_ofInt _⟩
      | float x =>
        obtain ⟨-, hx⟩ | ⟨negative, m, -, -, hx⟩ := floatJson_cases x
        · rw [toJson, hx] at hn
          contradiction
        · rw [toJson, hx] at hn
          cases hn
          exact Binary64.legal_numeral negative m
      | _ => contradiction
    · rw [parts_toJson]
      exact List.forall_mem_map.mpr ih

/-! ## Reading what was written -/

theorem itemsOfJson?_itemsToJson :
    itemsOfJson? (itemsToJson items) = some items ↔ ∀ d ∈ items, ofJson? d.toJson = some d := by
  induction items with
  | nil => simp [itemsToJson, itemsOfJson?]
  | cons d rest ih => simp [itemsToJson, itemsOfJson?, Option.bind_eq_some_iff, ih]

theorem membersOfJson?_entriesToJson :
    membersOfJson? (entriesToJson entries) = some entries ↔
      ∀ e ∈ entries, ofJson? e.2.toJson = some e.2 := by
  induction entries with
  | nil => simp [entriesToJson, membersOfJson?]
  | cons e rest ih =>
    obtain ⟨k, d⟩ := e
    rw [List.forall_mem_cons, ← ih]
    simp [entriesToJson, membersOfJson?, Option.bind_eq_some_iff]

theorem keys_membersOfJson? {members : List (String × Json)}
    (h : membersOfJson? members = some entries) :
    entries.map Prod.fst = members.map Prod.fst := by
  induction members generalizing entries with
  | nil =>
    cases h
    rfl
  | cons m rest ih =>
    obtain ⟨d, -, htail⟩ := Option.bind_eq_some_iff.mp h
    obtain ⟨rest', hrest, rfl⟩ := Option.map_eq_some_iff.mp htail
    rw [List.map_cons, List.map_cons, ih hrest]

/-- Of members in order none is moved or replaced. -/
theorem ofEntries_membersOfJson? (h : Dict.Ascending entries) :
    (membersOfJson? (entriesToJson entries)).map ofEntries = some (mapping entries) ↔
      membersOfJson? (entriesToJson entries) = some entries := by
  constructor
  · intro hread
    obtain ⟨entries', hmembers, hentries⟩ := Option.map_eq_some_iff.mp hread
    have hkeys := keys_membersOfJson? hmembers
    rw [entriesToJson_eq_map, List.map_map] at hkeys
    have hasc : Dict.Ascending entries' := h.of_keys_eq hkeys
    rw [ofEntries, hasc.ofList_eq] at hentries
    rw [hmembers, HostData.mapping.inj hentries]
  · intro hread
    rw [hread, Option.map_some, ofEntries, h.ofList_eq]

theorem ofJson?_floatJson (x : Binary64) :
    ofJson? (floatJson x) = some (float x) ↔ x.isFinite = true ∧ x.reread? = some x := by
  obtain ⟨hfinite, hx⟩ | ⟨negative, m, rfl, hfinite, hx⟩ := floatJson_cases x
  · simp [hx, ofJson?, hfinite]
  · simp [hx, ofJson?, ofNumeral?, Binary64.toJsonInt?_numeral, hfinite, Binary64.reread?]

/-- The tree of data in order is read as the data exactly if its floats are. -/
theorem ofJson?_toJson (hd : d.Ordered) :
    ofJson? d.toJson = some d ↔
      d.AllFloats fun x => x.isFinite = true ∧ x.reread? = some x := by
  induction d using HostData.induction with
  | step d ih =>
    cases d with
    | float x => rw [allFloats_float, ← ofJson?_floatJson, toJson]
    | null | bool | str =>
      rw [allFloats_iff_parts (by simp)]
      exact iff_of_true rfl fun _ h => nomatch h
    | int n =>
      rw [allFloats_iff_parts (by simp)]
      refine iff_of_true ?_ fun _ h => nomatch h
      rw [toJson, ofJson?, ofNumeral?, Numeral.toJsonInt?_ofInt]
    | seq items =>
      have hread : ofJson? (seq items).toJson = some (seq items) ↔
          itemsOfJson? (itemsToJson items) = some items := by
        simp [toJson, ofJson?]
      rw [hread, itemsOfJson?_itemsToJson, allFloats_iff_parts (by simp)]
      exact forall₂_congr fun e he => ih e he (ordered_seq.mp hd e he)
    | mapping entries =>
      obtain ⟨hasc, hinside⟩ := ordered_mapping.mp hd
      rw [toJson, ofJson?, ofEntries_membersOfJson? hasc, membersOfJson?_entriesToJson,
        allFloats_iff_parts (by simp), parts, List.forall_mem_map]
      exact forall₂_congr fun e he => ih e.2 (List.mem_map_of_mem he) (hinside e he)

/-- Data in order is read back from its text exactly if it nests no deeper than the limit and its
floats are read back from theirs. -/
theorem readJson?_jsonText (hd : d.Ordered) :
    readJson? d.jsonText = some d ↔
      d.depth ≤ Json.nestingLimit ∧
        d.AllFloats fun x => x.isFinite = true ∧ x.reread? = some x := by
  have hread : readJson? d.jsonText =
      if d.depth ≤ Json.nestingLimit then ofJson? d.toJson else none := by
    rw [readJson?, jsonText, String.toList_ofList, Json.read?_text d.legal_toJson, depth_toJson]
    split <;> rfl
  rw [hread, ← ofJson?_toJson hd]
  by_cases hdepth : d.depth ≤ Json.nestingLimit <;> simp [hdepth]

end TypedValues.HostData
