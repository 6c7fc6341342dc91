import TypedValues.Proofs.Value.Decoding

/-!
# Spellings of keys

More texts are read as keys than are written for keys. Each of them is a spelling of one key, and
the text written for that key is a spelling of it that stays as it is
(`Value.ofKeyText?_stable`).

So a mapping of the host can name one key in several spellings. What is decoded from it keeps the
last entry of each key, and keeps them all exactly if no two keys are equal
(`Value.keepsEntry_iff_differAsKeys`).
-/

namespace TypedValues.Value

open Outcome

variable {s : Stamp} {t key value : Ty} {k m v : Value} {text text' : String}
  {e e' : String × HostData} {stored stored' : String × Value} {entries : List (String × HostData)}
  {decodeValue : HostData → Decoded Value}

/-! ## The text that is written -/

/-- The text written for a key that was read, in whatever spelling, is read as an equal key and
written as it stands. -/
theorem ofKeyText?_stable (samePlace : Bool) (h : ofKeyText? t text = .ok k) :
    ∃ u, k.keyText t = .ok u ∧
      ∃ k', ofKeyText? t u = .ok k' ∧ k'.equals samePlace k = true ∧ k'.keyText t = .ok u := by
  obtain ⟨u, hu, k', hread, hkey', hu'⟩ := exists_keyText_of_ofKeyText? h
  have hequal : k'.equals samePlace k = true := by
    rw [← hkey'.keyText_eq_iff samePlace (keyOf_of_ofKeyText? h).1, hu, hu']
  exact ⟨u, hu, k', hread, hequal, hu'⟩

/-- A mapping with blanks in its text, a name that comes twice, once escaped, and a zero with a
sign. -/
def looseSpelling : String :=
  "\x7b \"Map\" :\x7b\"a\": \x7b\"Int\":1\x7d,\t\"\\u0061\":\x7b\"Float\":\"-0.0\"\x7d \x7d\x7d"

theorem looseSpelling_stable :
    ∃ k u, ofKeyText? .dynamic looseSpelling = .ok k ∧ k.keyText .dynamic = .ok u ∧
      u = "\x7b\"Map\":\x7b\"a\":\x7b\"Float\":\"0\"\x7d\x7d\x7d" ∧
      ∃ k', ofKeyText? .dynamic u = .ok k' ∧ k'.equals false k = true ∧
        k'.keyText .dynamic = .ok u := by
  have hwritten : (HostData.readTagged? looseSpelling).map HostData.taggedText =
      some "\x7b\"Map\":\x7b\"a\":\x7b\"Float\":\"0\"\x7d\x7d\x7d" := by
    decide +kernel
  obtain ⟨d, hd, htext⟩ := Option.map_eq_some_iff.mp hwritten
  have hread : ofKeyText? .dynamic looseSpelling = .ok (dynamic d) := by
    simp [ofKeyText?, hd]
  obtain ⟨u, hu, hstable⟩ := ofKeyText?_stable false hread
  exact ⟨_, u, hread, hu, (Except.ok.inj hu).symm.trans htext, hstable⟩

/-! ## The entries that are kept -/

/-- Two texts are no spellings of equal keys. -/
def DifferAsKeys (t : Ty) (text text' : String) : Prop :=
  ∀ k k', ofKeyText? t text = .ok k → ofKeyText? t text' = .ok k' → k.equals false k' = false

/-- The map has the entry of a mapping: under the key that its text is, what its data is decoded
to. -/
def KeepsEntry (key value : Ty) (m : Value) (e : String × HostData) : Prop :=
  ∃ k v, ofKeyText? key e.1 = .ok k ∧ decode value e.2 = .ok v ∧ m.lookup k = .ok (some v)

theorem keepsEntry_iff {d : Dict Value} (h : decodeEntry key (decode value) e = .ok stored) :
    KeepsEntry key value (typed (.map s key value) (.map d)) e ↔
      d.find? stored.1 = some stored.2 := by
  obtain ⟨k, hk, htext, hv⟩ := decodeEntry_eq_ok.mp h
  have hlookup : (typed (.map s key value) (.map d)).lookup k = .ok (d.find? stored.1) := by
    rw [lookup_typed, htext]
    rfl
  constructor
  · rintro ⟨k', v, hk', hv', hfind⟩
    obtain rfl : k' = k := Except.ok.inj (hk'.symm.trans hk)
    obtain rfl : v = stored.2 := Except.ok.inj (hv'.symm.trans hv)
    exact Except.ok.inj (hlookup.symm.trans hfind)
  · intro hfind
    exact ⟨k, stored.2, hk, hv, hlookup.trans (congrArg Except.ok hfind)⟩

theorem text_ne_iff_differAsKeys (h : decodeEntry key decodeValue e = .ok stored)
    (h' : decodeEntry key decodeValue e' = .ok stored') :
    stored.1 ≠ stored'.1 ↔ DifferAsKeys key e.1 e'.1 := by
  obtain ⟨k, hk, htext, -⟩ := decodeEntry_eq_ok.mp h
  obtain ⟨k', hk', htext', -⟩ := decodeEntry_eq_ok.mp h'
  have hequal : stored.1 = stored'.1 ↔ k.equals false k' = true := by
    rw [← (keyOf_of_ofKeyText? hk).1.keyText_eq_iff false (keyOf_of_ofKeyText? hk').1, htext,
      htext', Except.ok.injEq]
  rw [ne_eq, hequal, Bool.not_eq_true]
  constructor
  · intro hdiffer a a' ha ha'
    obtain rfl : a = k := Except.ok.inj (ha.symm.trans hk)
    obtain rfl : a' = k' := Except.ok.inj (ha'.symm.trans hk')
    exact hdiffer
  · intro hdiffer
    exact hdiffer k k' hk hk'

theorem differAsKeys_of_ne (hkey : key = .str ∨ key = .bool) (hne : text ≠ text') :
    DifferAsKeys key text text' := by
  intro k k' hk hk'
  rw [Bool.eq_false_iff, ne_eq,
    ← (keyOf_of_ofKeyText? hk).1.keyText_eq_iff false (keyOf_of_ofKeyText? hk').1,
    keyText_of_ofKeyText? hkey hk, keyText_of_ofKeyText? hkey hk', Except.ok.injEq]
  exact hne

/-- What is decoded from a mapping keeps the last entry of each key, and has as many entries as
the mapping and each of them exactly if no two keys are equal. Texts and truth values have one
spelling each, so that no entry is lost. -/
theorem keepsEntry_iff_differAsKeys (h : decode (.map s key value) (.mapping entries) = .ok m) :
    ((m.size = .ok entries.length ∧ ∀ e ∈ entries, KeepsEntry key value m e) ↔
        entries.Pairwise fun e e' => DifferAsKeys key e.1 e'.1) ∧
      (∀ before e after, entries = before ++ e :: after →
        (∀ e' ∈ after, DifferAsKeys key e.1 e'.1) → KeepsEntry key value m e) ∧
      ((key = .str ∨ key = .bool) → Dict.Ascending entries →
        entries.Pairwise fun e e' => DifferAsKeys key e.1 e'.1) := by
  obtain ⟨data, es, ⟨⟩, hes, rfl⟩ := decode_map_eq_ok.mp h
  have hsize : (typed (.map s key value) (.map (Dict.ofList es))).size = .ok entries.length ↔
      (es.map Prod.fst).Nodup := by
    show (Except.ok (Dict.ofList es).length : Except Fault Nat) = .ok entries.length ↔ _
    rw [Except.ok.injEq, hes.length_eq, Dict.length_ofList_eq_iff]
  have hdistinct : (es.map Prod.fst).Nodup ↔
      entries.Pairwise fun e e' => DifferAsKeys key e.1 e'.1 := by
    rw [List.Nodup, List.pairwise_map]
    refine (pairwise_iff_of_forall₂ hes ?_).symm
    intro e stored e' stored' he he'
    exact (text_ne_iff_differAsKeys he he').symm
  refine ⟨?_, ?_, ?_⟩
  · rw [hsize, ← hdistinct, and_iff_left_iff_imp]
    intro hnodup e he
    obtain ⟨stored, hstored, hdecode⟩ := exists_of_mem_forall₂ hes.flip he
    rw [keepsEntry_iff hdecode, Dict.find?_ofList_of_nodup hnodup]
    exact hstored
  · rintro before e after rfl hlater
    obtain ⟨before', stored, after', rfl, hdecode, hafter⟩ := exists_append_of_forall₂ hes
    rw [keepsEntry_iff hdecode]
    apply Dict.find?_ofList_of_last
    intro stored' hstored'
    obtain ⟨e', he', hdecode'⟩ := exists_of_mem_forall₂ hafter hstored'
    exact (text_ne_iff_differAsKeys hdecode hdecode').mpr (hlater e' he')
  · intro hkey hascending
    exact (List.pairwise_map.mp hascending.nodup).imp (differAsKeys_of_ne hkey)

/-- A mapping that names one key in two spellings loses the first of the two entries. -/
theorem keepsEntry_signedOne :
    let entries : List (String × HostData) := [("+1", .int 1), ("1", .int 2)]
    Dict.Ascending entries ∧
      ∃ m, decode (.map .blank .int .int) (.mapping entries) = .ok m ∧ m.size = .ok 1 ∧
        ¬ KeepsEntry .int .int m ("+1", .int 1) := by
  intro entries
  have hascending : Dict.Ascending entries := List.pairwise_pair.mpr (by decide)
  refine ⟨hascending, _, rfl, rfl, ?_⟩
  rintro ⟨k, v, hk, hv, hfind⟩
  obtain rfl : int 1 = k := Except.ok.inj hk
  obtain rfl : int 1 = v := Except.ok.inj hv
  have hkept : some (int 2) = some (int 1) := Except.ok.inj hfind
  simp [int, typed] at hkept

/-- Two keys with signs are kept; as texts the greater of them comes first. -/
theorem keepsEntry_signs :
    let entries : List (String × HostData) := [("+1", .int 1), ("-01", .int 2)]
    ∃ m, decode (.map .blank .int .int) (.mapping entries) = .ok m ∧ m.size = .ok 2 ∧
      ∀ e ∈ entries, KeepsEntry .int .int m e := by
  intro entries
  have hdecode : decode (.map .blank .int .int) (.mapping entries) =
      .ok (typed (.map .blank .int .int) (.map [("-1", int 2), ("1", int 1)])) := rfl
  have hdiffer : DifferAsKeys .int "+1" "-01" := by
    intro k k' hk hk'
    obtain rfl : int 1 = k := Except.ok.inj hk
    obtain rfl : int (-1) = k' := Except.ok.inj hk'
    rfl
  have hpairs : entries.Pairwise fun e e' => DifferAsKeys .int e.1 e'.1 :=
    List.pairwise_pair.mpr hdiffer
  exact ⟨_, hdecode, (keepsEntry_iff_differAsKeys hdecode).1.mpr hpairs⟩

end TypedValues.Value
