import TypedValues.Proofs.Dict
import TypedValues.Proofs.HostData.Tagged
import TypedValues.Proofs.Json.Nesting

/-!
# Tagged texts read back

Data whose mappings are in order are read back from their tagged text up to the sign of zeros, if
the text nests no deeper than the limit; a text that nests deeper is refused. What is read from
any text is in order and has a tagged text within the limit, so that it can be written and read
again.
-/

namespace TypedValues

/-! ## Numbers in tagged trees -/

theorem Numeral.toJsonInt?_ofInt (n : Int64) : (ofInt n.toInt).toJsonInt? = some n := by
  rw [toJsonInt?, toInt64?_ofInt, Option.bind_some, if_neg]
  rintro ⟨rfl, hsign⟩
  contradiction

theorem Binary64.keyText_canonical (x : Binary64) : x.canonical.keyText = x.keyText := by
  rw [keyText_eq, canonical_canonical, ← keyText_eq]

namespace HostData

variable {d : HostData} {items : List HostData} {entries : List (String × HostData)}

/-! ## Data in order -/

def parts : HostData → List HostData
  | seq items => items
  | mapping entries => entries.map Prod.snd
  | _ => []

/-- The keys of every mapping in the data ascend, as they do in whatever a host hands over. -/
def Ordered : HostData → Prop :=
  Everywhere parts fun d => ∀ entries, d = mapping entries → Dict.Ascending entries

theorem ordered_seq : (seq items).Ordered ↔ ∀ d ∈ items, d.Ordered := by
  constructor
  · exact Everywhere.inside
  · intro h
    refine .intro ?_ h
    intro entries heq
    contradiction

theorem ordered_mapping :
    (mapping entries).Ordered ↔ Dict.Ascending entries ∧ ∀ e ∈ entries, e.2.Ordered := by
  constructor
  · intro h
    exact ⟨h.here entries rfl, fun e he => h.inside e.2 (List.mem_map_of_mem he)⟩
  · rintro ⟨hasc, hinside⟩
    refine .intro ?_ ?_
    · rintro _ ⟨rfl⟩
      exact hasc
    · intro d hd
      obtain ⟨e, he, rfl⟩ := List.mem_map.mp hd
      exact hinside e he

/-! ## Nesting -/

mutual

/-- How many containers of the tagged text of data are inside one another at most. A tag is a
container, and a sequence or a mapping under it is another one. -/
def nesting : HostData → Nat
  | null => 0
  | seq items => itemsNesting items + 2
  | mapping entries => entriesNesting entries + 2
  | _ => 1

def itemsNesting : List HostData → Nat
  | [] => 0
  | d :: rest => max d.nesting (itemsNesting rest)

def entriesNesting : List (String × HostData) → Nat
  | [] => 0
  | (_, d) :: rest => max d.nesting (entriesNesting rest)

end

theorem itemsNesting_le {n : Nat} (h : ∀ d ∈ items, d.nesting ≤ n) : itemsNesting items ≤ n := by
  induction items with
  | nil => exact Nat.zero_le n
  | cons d rest ih =>
    obtain ⟨hd, hrest⟩ := List.forall_mem_cons.mp h
    exact Nat.max_le.mpr ⟨hd, ih hrest⟩

theorem entriesNesting_le {n : Nat} (h : ∀ e ∈ entries, e.2.nesting ≤ n) :
    entriesNesting entries ≤ n := by
  induction entries with
  | nil => exact Nat.zero_le n
  | cons e rest ih =>
    obtain ⟨he, hrest⟩ := List.forall_mem_cons.mp h
    exact Nat.max_le.mpr ⟨he, ih hrest⟩

theorem depth_tag (name : String) (body : Json) : (tag name body).depth = body.depth + 1 := by
  simp [tag, Json.depth, Json.membersDepth]

mutual

theorem depth_toTagged : ∀ d : HostData, d.toTagged.depth = d.nesting
  | null => rfl
  | bool _ => rfl
  | int _ => rfl
  | float _ => rfl
  | str _ => rfl
  | seq items => by
    rw [toTagged, depth_tag, Json.depth, itemsDepth_itemsToTagged items, nesting]
  | mapping entries => by
    rw [toTagged, depth_tag, Json.depth, membersDepth_entriesToTagged entries, nesting]

theorem itemsDepth_itemsToTagged :
    ∀ items : List HostData, Json.itemsDepth (itemsToTagged items) = itemsNesting items
  | [] => rfl
  | d :: rest => by
    rw [itemsToTagged, Json.itemsDepth, itemsNesting, depth_toTagged d,
      itemsDepth_itemsToTagged rest]

theorem membersDepth_entriesToTagged :
    ∀ entries : List (String × HostData),
      Json.membersDepth (entriesToTagged entries) = entriesNesting entries
  | [] => rfl
  | (k, d) :: rest => by
    rw [entriesToTagged, Json.membersDepth, entriesNesting, depth_toTagged d,
      membersDepth_entriesToTagged rest]

end

/-- The data inside a number of sequences of one item. -/
def inSequences (d : HostData) : Nat → HostData
  | 0 => d
  | n + 1 => seq [inSequences d n]

/-- A sequence costs two levels. -/
theorem nesting_inSequences (d : HostData) (n : Nat) :
    (d.inSequences n).nesting = 2 * n + d.nesting := by
  induction n with
  | zero => rw [inSequences, Nat.mul_zero, Nat.zero_add]
  | succ n ih =>
    rw [inSequences, nesting, itemsNesting, itemsNesting, ih]
    omega

theorem ordered_inSequences (h : d.Ordered) (n : Nat) : (d.inSequences n).Ordered := by
  induction n with
  | zero => exact h
  | succ n ih =>
    apply ordered_seq.mpr
    intro d' hd'
    rwa [List.mem_singleton.mp hd']

/-- The data is in order, and its tagged text nests no deeper than the limit. -/
structure Fits (limit : Nat) (d : HostData) : Prop where
  ordered : d.Ordered
  nesting_le : d.nesting ≤ limit

theorem Fits.mono {limit limit' : Nat} (h : d.Fits limit) (hle : limit ≤ limit') :
    d.Fits limit' := ⟨h.ordered, Nat.le_trans h.nesting_le hle⟩

/-- Data of one level is neither a sequence nor a mapping. -/
theorem fits_scalar (h : d.nesting ≤ 1) (n : Nat) : d.Fits (n + 1) := by
  refine ⟨?_, Nat.le_trans h (Nat.le_add_left 1 n)⟩
  cases d with
  | seq items | mapping entries =>
    rw [nesting] at h
    omega
  | _ => exact .of_leaf rfl fun _ heq => nomatch heq

/-! ## All or nothing -/

theorem allItems?_eq_some {xs : List (Option HostData)} :
    allItems? xs = some items ↔ xs = items.map some := by
  induction xs generalizing items with
  | nil => cases items <;> simp [allItems?]
  | cons x rest ih => cases x <;> cases items <;> simp [allItems?, ih, and_comm]

theorem allEntries?_eq_some {xs : List (String × Option HostData)} :
    allEntries? xs = some entries ↔ xs = entries.map fun e => (e.1, some e.2) := by
  induction xs generalizing entries with
  | nil => cases entries <;> simp [allEntries?]
  | cons x rest ih =>
    obtain ⟨k, x⟩ := x
    cases x <;> cases entries <;> simp [allEntries?, ih, Prod.ext_iff, and_comm, and_assoc]

/-! ## Reading what was written -/

theorem keys_entriesToTagged (entries : List (String × HostData)) :
    (entriesToTagged entries).map Prod.fst = entries.map Prod.fst := by
  induction entries with
  | nil => rfl
  | cons e rest ih => simp [entriesToTagged, ih]

mutual

theorem ofTagged?_toTagged : ∀ d : HostData, d.Ordered →
    ∃ d', ofTagged? d.toTagged = some (some d') ∧ d'.toTagged = d.toTagged
  | null, _ => ⟨null, rfl, rfl⟩
  | bool b, _ => ⟨bool b, rfl, rfl⟩
  | int n, _ => by
    refine ⟨int n, ?_, rfl⟩
    simp [toTagged, tag, ofTagged?, ofBody?, Numeral.toJsonInt?_ofInt]
  | float x, _ => by
    refine ⟨float x.canonical, ?_, ?_⟩
    · simp [toTagged, tag, ofTagged?, ofBody?, Binary64.read?_keyText]
    · rw [toTagged, toTagged, Binary64.keyText_canonical]
  | str s, _ => ⟨str s, rfl, rfl⟩
  | seq items, h => by
    obtain ⟨items', hread, hsame⟩ := itemsOfTagged?_itemsToTagged items (ordered_seq.mp h)
    refine ⟨seq items', ?_, ?_⟩
    · simp [toTagged, tag, ofTagged?, ofBody?, hread, allItems?_eq_some.mpr rfl]
    · rw [toTagged, toTagged, hsame]
  | mapping entries, h => by
    obtain ⟨hasc, hinside⟩ := ordered_mapping.mp h
    obtain ⟨entries', hread, hsame⟩ := membersOfTagged?_entriesToTagged entries hinside
    -- the members are in order, so that none of them is moved or replaced
    have hasc' : Dict.Ascending (entries'.map fun e => (e.1, some e.2)) := by
      have hkeys := congrArg (List.map Prod.fst) hsame
      rw [keys_entriesToTagged, keys_entriesToTagged] at hkeys
      have hentries' : Dict.Ascending entries' := hasc.of_keys_eq hkeys
      exact hentries'.map fun _ d => some d
    refine ⟨mapping entries', ?_, ?_⟩
    · simp [toTagged, tag, ofTagged?, ofBody?, hread, hasc'.ofList_eq,
        allEntries?_eq_some.mpr rfl]
    · rw [toTagged, toTagged, hsame]

theorem itemsOfTagged?_itemsToTagged : ∀ items : List HostData, (∀ d ∈ items, d.Ordered) →
    ∃ items' : List HostData, itemsOfTagged? (itemsToTagged items) = some (items'.map some) ∧
      itemsToTagged items' = itemsToTagged items
  | [], _ => ⟨[], rfl, rfl⟩
  | d :: rest, h => by
    obtain ⟨hd, hrest⟩ := List.forall_mem_cons.mp h
    obtain ⟨d', hread, hsame⟩ := ofTagged?_toTagged d hd
    obtain ⟨rest', hreads, hsames⟩ := itemsOfTagged?_itemsToTagged rest hrest
    refine ⟨d' :: rest', ?_, ?_⟩
    · simp [itemsToTagged, itemsOfTagged?, hread, hreads]
    · rw [itemsToTagged, itemsToTagged, hsame, hsames]

theorem membersOfTagged?_entriesToTagged :
    ∀ entries : List (String × HostData), (∀ e ∈ entries, e.2.Ordered) →
      ∃ entries' : List (String × HostData),
        membersOfTagged? (entriesToTagged entries) =
          some (entries'.map fun e => (e.1, some e.2)) ∧
        entriesToTagged entries' = entriesToTagged entries
  | [], _ => ⟨[], rfl, rfl⟩
  | (k, d) :: rest, h => by
    obtain ⟨hd, hrest⟩ := List.forall_mem_cons.mp h
    obtain ⟨d', hread, hsame⟩ := ofTagged?_toTagged d hd
    obtain ⟨rest', hreads, hsames⟩ := membersOfTagged?_entriesToTagged rest hrest
    refine ⟨(k, d') :: rest', ?_, ?_⟩
    · simp [entriesToTagged, membersOfTagged?, hread, hreads]
    · rw [entriesToTagged, entriesToTagged, hsame, hsames]

end

/-! ## What is read -/

theorem exists_of_itemsOfTagged? {js : List Json} {xs : List (Option HostData)}
    {x : Option HostData} (h : itemsOfTagged? js = some xs) (hx : x ∈ xs) :
    ∃ j ∈ js, ofTagged? j = some x := by
  induction js generalizing xs with
  | nil =>
    cases h
    contradiction
  | cons j rest ih =>
    obtain ⟨y, hy, htail⟩ := Option.bind_eq_some_iff.mp h
    obtain ⟨ys, hys, rfl⟩ := Option.map_eq_some_iff.mp htail
    rcases List.mem_cons.mp hx with rfl | hx
    · exact ⟨j, List.mem_cons_self, hy⟩
    · obtain ⟨k, hk, hread⟩ := ih hys hx
      exact ⟨k, List.mem_cons_of_mem j hk, hread⟩

theorem exists_of_membersOfTagged? {ms : List (String × Json)}
    {xs : List (String × Option HostData)} {x : String × Option HostData}
    (h : membersOfTagged? ms = some xs) (hx : x ∈ xs) :
    ∃ m ∈ ms, ofTagged? m.2 = some x.2 := by
  induction ms generalizing xs with
  | nil =>
    cases h
    contradiction
  | cons m rest ih =>
    obtain ⟨k, j⟩ := m
    obtain ⟨y, hy, htail⟩ := Option.bind_eq_some_iff.mp h
    obtain ⟨ys, hys, rfl⟩ := Option.map_eq_some_iff.mp htail
    rcases List.mem_cons.mp hx with rfl | hx
    · exact ⟨(k, j), List.mem_cons_self, hy⟩
    · obtain ⟨m, hm, hread⟩ := ih hys hx
      exact ⟨m, List.mem_cons_of_mem _ hm, hread⟩

section Trees

variable {name : String} {j : Json} {js : List Json} {members : List (String × Json)}

/-- A tree without containers stands for data of one level under a tag. -/
theorem nesting_le_of_leaf (hj : j.depth = 0) (h : ofBody? name j = some (some d)) :
    d.nesting ≤ 1 := by
  cases j with
  | null =>
    rw [ofBody?, Option.ite_none_right_eq_some] at h
    cases h.2
    exact Nat.zero_le 1
  | bool b =>
    rw [ofBody?, Option.ite_none_right_eq_some] at h
    cases h.2
    exact Nat.le_refl 1
  | number n =>
    rw [ofBody?, Option.ite_none_right_eq_some] at h
    obtain ⟨i, -, hi⟩ := Option.map_eq_some_iff.mp h.2
    cases hi
    exact Nat.le_refl 1
  | str s =>
    rw [ofBody?] at h
    split at h
    · cases h
      exact Nat.le_refl 1
    · rw [Option.ite_none_right_eq_some] at h
      obtain ⟨x, -, rfl⟩ := Option.map_eq_some_iff.mp (Option.some.inj h.2)
      exact Nat.le_refl 1
  | arr | obj =>
    rw [Json.depth] at hj
    omega

/-- A sequence fits under its tag if what is read from its items fits. -/
theorem fits_of_arr (hitems : ∀ k ∈ js, ∀ d, ofTagged? k = some (some d) → d.Fits k.depth)
    (h : ofBody? name (.arr js) = some (some d)) : d.Fits ((Json.arr js).depth + 1) := by
  rw [ofBody?, Option.ite_none_right_eq_some] at h
  obtain ⟨xs, hread, hall⟩ := Option.map_eq_some_iff.mp h.2
  obtain ⟨ds, hds, rfl⟩ := Option.map_eq_some_iff.mp hall
  obtain rfl := allItems?_eq_some.mp hds
  have hfits : ∀ d ∈ ds, d.Fits (Json.itemsDepth js) := by
    intro d hd
    obtain ⟨k, hk, hkread⟩ := exists_of_itemsOfTagged? hread (List.mem_map_of_mem hd)
    have hle := Json.itemsDepth_le.mp (Nat.le_refl (Json.itemsDepth js)) k hk
    exact (hitems k hk d hkread).mono hle
  refine ⟨ordered_seq.mpr fun d hd => (hfits d hd).ordered, ?_⟩
  have := itemsNesting_le fun d hd => (hfits d hd).nesting_le
  rw [nesting, Json.depth]
  omega

/-- A mapping fits under its tag if what is read from its members fits. Of two members with one
name only the later is there. -/
theorem fits_of_obj
    (hmembers : ∀ m ∈ members, ∀ d, ofTagged? m.2 = some (some d) → d.Fits m.2.depth)
    (h : ofBody? name (.obj members) = some (some d)) : d.Fits ((Json.obj members).depth + 1) := by
  rw [ofBody?, Option.ite_none_right_eq_some] at h
  obtain ⟨xs, hread, hall⟩ := Option.map_eq_some_iff.mp h.2
  obtain ⟨es, hes, rfl⟩ := Option.map_eq_some_iff.mp hall
  rw [allEntries?_eq_some] at hes
  have hfits : ∀ e ∈ es, e.2.Fits (Json.membersDepth members) := by
    intro e he
    have hmem : (e.1, some e.2) ∈ Dict.ofList xs := by
      rw [hes]
      exact List.mem_map_of_mem he
    obtain ⟨m, hm, hmread⟩ := exists_of_membersOfTagged? hread (Dict.mem_of_mem_ofList hmem)
    have hle := Json.membersDepth_le.mp (Nat.le_refl (Json.membersDepth members)) m hm
    exact (hmembers m hm e.2 hmread).mono hle
  -- the members are put in order, and reading their data leaves the names alone
  have hasc : Dict.Ascending es := by
    have hkeys := Dict.ascending_ofList xs
    rw [hes, Dict.Ascending, Dict.keys, List.map_map] at hkeys
    exact hkeys
  refine ⟨ordered_mapping.mpr ⟨hasc, fun e he => (hfits e he).ordered⟩, ?_⟩
  have := entriesNesting_le fun e he => (hfits e he).nesting_le
  rw [nesting, Json.depth]
  omega

theorem fits_of_body (hparts : ∀ k ∈ j.parts, ∀ d, ofTagged? k = some (some d) → d.Fits k.depth)
    (h : ofBody? name j = some (some d)) : d.Fits (j.depth + 1) := by
  cases j with
  | arr js => exact fits_of_arr hparts h
  | obj members => exact fits_of_obj (fun m hm => hparts m.2 (List.mem_map_of_mem hm)) h
  | _ => exact fits_scalar (nesting_le_of_leaf rfl h) _

/-- Data is null, or stands under its tag. -/
theorem fits_of_tag
    (hparts : ∀ k ∈ j.parts, ∀ name d, ofBody? name k = some (some d) → d.Fits (k.depth + 1))
    (h : ofTagged? j = some (some d)) : d.Fits j.depth := by
  cases j with
  | str s =>
    rw [ofTagged?, Option.ite_none_right_eq_some] at h
    cases h.2
    exact ⟨.of_leaf rfl (fun _ heq => nomatch heq), Nat.le_refl 0⟩
  | obj members =>
    match members with
    | [(name, body)] =>
      have hbody := hparts body (List.mem_singleton.mpr rfl) name d h
      rwa [← depth_tag name body] at hbody
  | _ => contradiction

end Trees

/-- What is read from a tree fits into the depth of the tree, and what is read from the tree under
a tag into one level more. By induction on the tree, both at once: data is read from a tag, and
what stands under the tag from data. -/
theorem fits_of_tagged (j : Json) :
    (∀ d, ofTagged? j = some (some d) → d.Fits j.depth) ∧
      ∀ name d, ofBody? name j = some (some d) → d.Fits (j.depth + 1) := by
  induction j using Json.induction with
  | step j ih =>
    constructor
    · intro d h
      exact fits_of_tag (fun k hk => (ih k hk).2) h
    · intro name d h
      exact fits_of_body (fun k hk => (ih k hk).1) h

/-! ## Tagged texts -/

/-- What is read from a text can be written and read again. -/
theorem fits_of_readTagged? {text : String} (h : readTagged? text = some d) :
    d.Fits Json.nestingLimit := by
  obtain ⟨j, hj, hread⟩ := Option.bind_eq_some_iff.mp (Option.join_eq_some_iff.mp h)
  exact ((fits_of_tagged j).1 d hread).mono (Json.depth_le_of_read? hj)

theorem readTagged?_taggedText (h : d.Fits Json.nestingLimit) :
    ∃ d', readTagged? d.taggedText = some d' ∧ d'.taggedText = d.taggedText := by
  obtain ⟨d', hread, hsame⟩ := ofTagged?_toTagged d h.ordered
  refine ⟨d', ?_, by rw [taggedText, hsame, taggedText]⟩
  rw [readTagged?, taggedText, String.toList_ofList, Json.read?_text (legal_toTagged d),
    depth_toTagged, if_pos h.nesting_le, Option.bind_some, hread]
  rfl

/-- A text that nests deeper than the limit is refused, though data were written as it. -/
theorem readTagged?_taggedText_of_lt (h : Json.nestingLimit < d.nesting) :
    readTagged? d.taggedText = none := by
  rw [readTagged?, taggedText, String.toList_ofList, Json.read?_text (legal_toTagged d),
    depth_toTagged, if_neg (by omega)]
  rfl

end HostData

end TypedValues
