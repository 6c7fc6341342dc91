import Mathlib.Data.List.Dedup
import Mathlib.Data.String.Basic
import TypedValues.Dict

/-!
# Dictionaries in order

The keys of a dictionary ascend, so that no key stands in it twice. Storing and removing entries
keeps them so, and in a dictionary whose keys ascend the entries are exactly what look-ups find.
-/

namespace TypedValues.Dict

variable {α β : Type} {d : Dict α} {e : String × α} {key : String} {value : α}

/-! ## Entries -/

theorem mem_of_mem_insert (h : e ∈ d.insert key value) : e = (key, value) ∨ e ∈ d := by
  induction d with
  | nil => exact .inl (List.mem_singleton.mp h)
  | cons e' rest ih =>
    obtain ⟨k, v⟩ := e'
    simp only [insert] at h
    split at h
    · exact (List.mem_cons.mp h).imp_right (List.mem_cons_of_mem _)
    · split at h
      · exact List.mem_cons.mp h
      · rcases List.mem_cons.mp h with rfl | h
        · exact .inr (by simp)
        · exact (ih h).imp_right (List.mem_cons_of_mem _)

theorem mem_erase : e ∈ d.erase key ↔ e ∈ d ∧ e.1 ≠ key := by
  simp [erase]

theorem mem_of_find? (h : d.find? key = some value) : (key, value) ∈ d := by
  induction d with
  | nil => contradiction
  | cons e rest ih =>
    obtain ⟨k, v⟩ := e
    rw [find?_cons] at h
    split at h
    · next hk =>
      cases h
      rw [hk]
      exact List.mem_cons_self
    · exact List.mem_cons_of_mem _ (ih h)

theorem find?_map (f : String → α → β) (key : String) (d : Dict α) :
    find? key (d.map fun e => (e.1, f e.1 e.2)) = (find? key d).map (f key) := by
  induction d with
  | nil => rfl
  | cons e rest ih =>
    obtain ⟨k, v⟩ := e
    rw [List.map_cons, find?_cons, find?_cons, ih]
    split
    · next hk => rw [hk, Option.map_some]
    · rfl

theorem modify_eq_map (key : String) (f : α → α) (d : Dict α) :
    modify key f d = d.map fun e => (e.1, if e.1 = key then f e.2 else e.2) := by
  apply List.map_congr_left
  intro e _
  split <;> rfl

theorem keys_map (f : String → α → β) (d : Dict α) :
    keys (d.map fun e => (e.1, f e.1 e.2)) = d.keys := by
  simp [keys, Function.comp_def]

theorem exists_mem_of_keys_eq {d' : Dict β} (hsame : d.keys = d'.keys) (he : e ∈ d) :
    ∃ e' ∈ d', e'.1 = e.1 := by
  have hkey : e.1 ∈ d'.keys := by
    rw [← hsame]
    exact List.mem_map_of_mem he
  exact List.mem_map.mp hkey

theorem keys_modify (key : String) (f : α → α) (d : Dict α) : (d.modify key f).keys = d.keys := by
  rw [modify_eq_map]
  exact keys_map (fun s v => if s = key then f v else v) d

theorem find?_modify (s key : String) (f : α → α) (d : Dict α) :
    (d.modify key f).find? s = (d.find? s).map fun v => if s = key then f v else v := by
  rw [modify_eq_map]
  exact find?_map (fun s v => if s = key then f v else v) s d

theorem find?_append (key : String) (d d' : Dict α) :
    find? key (d ++ d') = (find? key d).or (find? key d') := by
  induction d with
  | nil => rfl
  | cons e rest ih =>
    obtain ⟨k, v⟩ := e
    rw [List.cons_append, find?_cons, find?_cons, ih]
    split <;> rfl

/-- Where no key comes twice, every entry is what a look-up of its key finds. -/
theorem find?_eq_some_of_nodup (h : d.keys.Nodup) :
    d.find? key = some value ↔ (key, value) ∈ d := by
  refine ⟨mem_of_find?, ?_⟩
  intro hmem
  induction d with
  | nil => contradiction
  | cons e rest ih =>
    obtain ⟨hfirst, hrest⟩ := List.nodup_cons.mp h
    rcases List.mem_cons.mp hmem with rfl | hmem
    · rw [find?_cons, if_pos rfl]
    · have hne : e.1 ≠ key := by
        intro heq
        exact hfirst (heq ▸ List.mem_map_of_mem hmem)
      rw [find?_cons, if_neg hne]
      exact ih hrest hmem

/-! ## Order -/

/-- The keys ascend strictly. -/
def Ascending (d : Dict α) : Prop := d.keys.Pairwise (· < ·)

theorem ascending_cons {rest : Dict α} :
    Ascending (e :: rest) ↔ (∀ e' ∈ rest, e.1 < e'.1) ∧ rest.Ascending := by
  simp [Ascending, keys]

/-- The order is one of keys, whatever is stored under them. -/
theorem Ascending.of_keys_eq {d' : Dict β} (h : d.Ascending) (hsame : d'.keys = d.keys) :
    d'.Ascending := by
  rw [Ascending, hsame]
  exact h

theorem ascending_nil : Ascending ([] : Dict α) := .nil

theorem Ascending.insert (h : d.Ascending) (key : String) (value : α) :
    (d.insert key value).Ascending := by
  induction d with
  | nil => exact List.pairwise_singleton _ _
  | cons e rest ih =>
    obtain ⟨k, v⟩ := e
    obtain ⟨hk, hrest⟩ := ascending_cons.mp h
    simp only [Dict.insert]
    split
    · next heq => exact ascending_cons.mpr ⟨heq ▸ hk, hrest⟩
    · next hne =>
      split
      · next hlt =>
        refine ascending_cons.mpr ⟨?_, h⟩
        intro e' he'
        rcases List.mem_cons.mp he' with rfl | he'
        · exact hlt
        · exact lt_trans hlt (hk e' he')
      · next hge =>
        have hkey : k < key := lt_of_le_of_ne (le_of_not_gt hge) hne
        refine ascending_cons.mpr ⟨?_, ih hrest⟩
        intro e' he'
        rcases mem_of_mem_insert he' with rfl | he'
        · exact hkey
        · exact hk e' he'

theorem Ascending.erase (h : d.Ascending) (key : String) : (d.erase key).Ascending :=
  h.sublist (List.filter_sublist.map Prod.fst)

theorem Ascending.map (h : d.Ascending) (f : String → α → β) :
    Ascending (d.map fun e => (e.1, f e.1 e.2)) :=
  h.of_keys_eq (keys_map f d)

theorem Ascending.nodup (h : d.Ascending) : d.keys.Nodup :=
  h.imp fun hlt => ne_of_lt hlt

/-- In order, every entry is what a look-up of its key finds. -/
theorem Ascending.find?_eq_some (h : d.Ascending) : d.find? key = some value ↔ (key, value) ∈ d :=
  find?_eq_some_of_nodup h.nodup

theorem mem_keys : key ∈ d.keys ↔ (d.find? key).isSome = true := by
  induction d with
  | nil => simp [keys]
  | cons e rest ih =>
    rw [find?_cons]
    split
    · next hk => simp [keys, hk]
    · next hk => simpa [keys, Ne.symm hk] using ih

theorem find?_eq_none : d.find? key = none ↔ key ∉ d.keys := by
  rw [mem_keys, Option.not_isSome_iff_eq_none]

/-- In order, the entries are known from what look-ups find. -/
theorem Ascending.ext {d' : Dict α} (h : d.Ascending) (h' : d'.Ascending)
    (hfind : ∀ key, d.find? key = d'.find? key) : d = d' := by
  have hmem (e : String × α) : e ∈ d ↔ e ∈ d' := by
    rw [← h.find?_eq_some, ← h'.find?_eq_some, hfind]
  have hnodup {d : Dict α} (h : d.Ascending) : d.Nodup :=
    (List.pairwise_map.mp h).imp fun hlt => ne_of_apply_ne Prod.fst (ne_of_lt hlt)
  have hperm : d.Perm d' := (List.perm_ext_iff_of_nodup (hnodup h) (hnodup h')).mpr hmem
  refine hperm.eq_of_pairwise ?_ (List.pairwise_map.mp h) (List.pairwise_map.mp h')
  intro e e' _ _ hlt hgt
  exact absurd hgt (lt_asymm hlt)

/-! ## Many entries -/

section Many

variable {es : List (String × α)}

theorem ascending_ofList (es : List (String × α)) : (ofList es).Ascending := by
  have hfold (d : Dict α) (h : d.Ascending) :
      (es.foldl (fun d e => d.insert e.1 e.2) d).Ascending := by
    induction es generalizing d with
    | nil => exact h
    | cons e rest ih => exact ih _ (h.insert e.1 e.2)
  exact hfold [] ascending_nil

theorem mem_of_mem_ofList (h : e ∈ ofList es) : e ∈ es := by
  have hfold (es : List (String × α)) (d : Dict α)
      (h : e ∈ es.foldl (fun d e => d.insert e.1 e.2) d) : e ∈ d ∨ e ∈ es := by
    induction es generalizing d with
    | nil => exact .inl h
    | cons e' rest ih =>
      rcases ih _ h with h | h
      · rcases mem_of_mem_insert h with rfl | h
        · exact .inr List.mem_cons_self
        · exact .inl h
      · exact .inr (List.mem_cons_of_mem _ h)
  exact (hfold es [] h).resolve_left List.not_mem_nil

theorem insert_of_forall_lt (h : ∀ e ∈ d, e.1 < key) : d.insert key value = d ++ [(key, value)] := by
  induction d with
  | nil => rfl
  | cons e rest ih =>
    obtain ⟨k, v⟩ := e
    obtain ⟨hk, hrest⟩ := List.forall_mem_cons.mp h
    rw [insert, if_neg (ne_of_lt hk), if_neg (lt_asymm hk), ih hrest, List.cons_append]

/-- Entries that are in order already stay as they are. -/
theorem Ascending.ofList_eq (h : d.Ascending) : ofList d = d := by
  have hfold (es before : Dict α) (h : Ascending (before ++ es)) :
      es.foldl (fun d e => d.insert e.1 e.2) before = before ++ es := by
    induction es generalizing before with
    | nil => simp
    | cons e rest ih =>
      have hlast : ∀ e' ∈ before, e'.1 < e.1 := by
        simp only [Ascending, keys, List.map_append, List.pairwise_append] at h
        intro e' he'
        exact h.2.2 e'.1 (List.mem_map_of_mem he') e.1 (by simp)
      have hrest : Ascending ((before ++ [e]) ++ rest) := by rwa [List.append_assoc]
      rw [List.foldl_cons, insert_of_forall_lt hlast, ih _ hrest, List.append_assoc]
      rfl
  exact hfold d [] h

theorem mem_keys_insert {k : String} : k ∈ (d.insert key value).keys ↔ k = key ∨ k ∈ d.keys := by
  by_cases h : k = key
  · simp [mem_keys, h]
  · simp [mem_keys, h, find?_insert_of_ne h]

theorem mem_keys_ofList : key ∈ (ofList es).keys ↔ key ∈ es.map Prod.fst := by
  have hfold (d : Dict α) : key ∈ keys (es.foldl (fun d e => d.insert e.1 e.2) d) ↔
      key ∈ d.keys ∨ key ∈ es.map Prod.fst := by
    induction es generalizing d with
    | nil => simp
    | cons e rest ih =>
      rw [List.foldl_cons, ih, mem_keys_insert, List.map_cons, List.mem_cons, or_assoc,
        or_left_comm]
  rw [ofList, hfold, keys, List.map_nil, or_iff_right List.not_mem_nil]

/-- Of the entries of a key the last is found. -/
theorem find?_ofList (key : String) (es : List (String × α)) :
    find? key (ofList es) = find? key es.reverse := by
  have hfold (d : Dict α) : find? key (es.foldl (fun d e => d.insert e.1 e.2) d) =
      (find? key es.reverse).or (find? key d) := by
    induction es generalizing d with
    | nil => rfl
    | cons e rest ih =>
      obtain ⟨k, v⟩ := e
      rw [List.foldl_cons, ih, List.reverse_cons, find?_append, Option.or_assoc, find?_cons]
      congr 1
      by_cases h : key = k
      · simp [h]
      · simp [find?_insert_of_ne h, Ne.symm h]
  rw [ofList, hfold, find?_nil, Option.or_none]

theorem find?_ofList_of_last {before after : List (String × α)} (h : ∀ e ∈ after, key ≠ e.1) :
    find? key (ofList (before ++ (key, value) :: after)) = some value := by
  have hlater : find? key after.reverse = none := by
    rw [find?_eq_none, keys, List.map_reverse, List.mem_reverse, List.mem_map]
    rintro ⟨e, he, heq⟩
    exact h e he heq.symm
  rw [find?_ofList, List.reverse_append, List.reverse_cons, find?_append, find?_append, hlater,
    Option.none_or, find?_cons, if_pos rfl, Option.some_or]

theorem length_ofList (es : List (String × α)) :
    (ofList es).length = (es.map Prod.fst).dedup.length := by
  have hperm : (ofList es).keys.Perm (es.map Prod.fst).dedup := by
    refine (List.perm_ext_iff_of_nodup (ascending_ofList es).nodup (List.nodup_dedup _)).mpr ?_
    intro key
    rw [mem_keys_ofList, List.mem_dedup]
  rw [← hperm.length_eq, keys, List.length_map]

/-- No entry is lost exactly if no key comes twice. -/
theorem length_ofList_eq_iff : (ofList es).length = es.length ↔ (es.map Prod.fst).Nodup := by
  rw [length_ofList, ← List.dedup_eq_self]
  constructor
  · intro h
    exact (List.dedup_sublist _).eq_of_length (h.trans (List.length_map _).symm)
  · intro h
    rw [h, List.length_map]

theorem find?_ofList_of_nodup (h : (es.map Prod.fst).Nodup) :
    find? key (ofList es) = some value ↔ (key, value) ∈ es := by
  have hreverse : keys es.reverse = (es.map Prod.fst).reverse := List.map_reverse
  rw [find?_ofList, find?_eq_some_of_nodup, List.mem_reverse]
  rw [hreverse]
  exact List.nodup_reverse.mpr h

/-- A dictionary is built from its entries in any order, however often each of them comes. -/
theorem Ascending.ofList_eq_of_find? (h : d.Ascending) (hes : ∀ e ∈ es, d.find? e.1 = some e.2)
    (hkeys : ∀ k ∈ d.keys, k ∈ es.map Prod.fst) : ofList es = d := by
  apply (ascending_ofList es).ext h
  intro k
  cases hfind : find? k (ofList es) with
  | some v => exact (hes _ (mem_of_mem_ofList (mem_of_find? hfind))).symm
  | none =>
    have hk : k ∉ d.keys := by
      intro hk
      have hmem := mem_keys.mp (mem_keys_ofList.mpr (hkeys k hk))
      rw [hfind] at hmem
      contradiction
    exact (find?_eq_none.mpr hk).symm

end Many

end TypedValues.Dict
