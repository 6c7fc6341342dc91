import Mathlib.Data.Set.Card
import TypedValues.Proofs.Dict
import TypedValues.Proofs.Value.Keys
import TypedValues.Proofs.Value.Views

/-!
# Classes of equal keys

What a map means is a function from the classes of equal keys to values. A dictionary of texts
stands for such a function (`Dict.StandsFor`) if its texts are those of keys and the value under
the text of a key is that of the class of the key, up to the types that are recorded in it.
-/

namespace TypedValues

/-- A key that a type makes. -/
structure Key (t : Ty) where
  value : Value
  isKey : value.KeyOf t

namespace Key

variable {t : Ty}

def text (k : Key t) : String :=
  match k.value.keyText t with
  | .ok s => s
  | .error _ => ""

theorem keyText_eq (k : Key t) : k.value.keyText t = .ok k.text := by
  obtain ⟨s, hs⟩ := k.isKey.keyText_ok
  rw [text, hs]

theorem text_eq_iff {a b : Key t} : a.text = b.text ↔ a.value.equals false b.value = true := by
  rw [← a.isKey.keyText_eq_iff false b.isKey, a.keyText_eq, b.keyText_eq, Except.ok.injEq]

instance setoid (t : Ty) : Setoid (Key t) where
  r a b := a.value.equals false b.value = true
  iseqv := by
    refine ⟨?_, ?_, ?_⟩
    · intro a
      exact text_eq_iff.mp rfl
    · intro a b h
      exact text_eq_iff.mp (text_eq_iff.mpr h).symm
    · intro a b c h₁ h₂
      exact text_eq_iff.mp ((text_eq_iff.mpr h₁).trans (text_eq_iff.mpr h₂))

end Key

def KeyClass (t : Ty) : Type := Quotient (Key.setoid t)
def Key.cls {t : Ty} (k : Key t) : KeyClass t := Quotient.mk _ k

namespace KeyClass

variable {t : Ty}

/-- The text that the keys of a class share. -/
def text : KeyClass t → String := Quotient.lift Key.text fun _ _ h => Key.text_eq_iff.mpr h

theorem text_cls (k : Key t) : k.cls.text = k.text := rfl

theorem exists_key (c : KeyClass t) : ∃ k : Key t, k.cls = c := Quotient.exists_rep c

theorem text_injective : Function.Injective (text : KeyClass t → String) := by
  intro c d h
  obtain ⟨a, rfl⟩ := c.exists_key
  obtain ⟨b, rfl⟩ := d.exists_key
  exact Quotient.sound (Key.text_eq_iff.mp h)

instance : DecidableEq (KeyClass t) := fun _ _ => decidable_of_iff _ text_injective.eq_iff

theorem cls_eq_iff {a b : Key t} : a.cls = b.cls ↔ a.text = b.text := text_injective.eq_iff.symm

end KeyClass

/-- What a map means: the value of each class of equal keys that has one. -/
abbrev AbstractMap (t : Ty) := KeyClass t → Option Value

/-- The classes that have a value. -/
def AbstractMap.live {t : Ty} (m : AbstractMap t) : Set (KeyClass t) := {c | (m c).isSome = true}

namespace Dict

variable {t : Ty} {m : AbstractMap t} {d : Dict Value} {k : Key t} {x : Value}

/-- A dictionary holds the values of an abstract map under the texts of their classes. -/
structure StandsFor (m : AbstractMap t) (d : Dict Value) : Prop where
  ascending : d.Ascending
  keyed : ∀ s ∈ d.keys, ∃ k : Key t, k.text = s
  find : ∀ k : Key t, (d.find? k.text).map Value.untyped = (m k.cls).map Value.untyped

theorem standsFor_nil : StandsFor (fun _ : KeyClass t => none) [] :=
  ⟨ascending_nil, fun _ h => (nomatch h), fun _ => rfl⟩

theorem StandsFor.isSome (h : StandsFor m d) (k : Key t) :
    (d.find? k.text).isSome = (m k.cls).isSome := by
  rw [← Option.isSome_map (f := Value.untyped), h.find, Option.isSome_map]

theorem StandsFor.mem_keys_iff (h : StandsFor m d) (c : KeyClass t) :
    c.text ∈ d.keys ↔ c ∈ m.live := by
  obtain ⟨k, rfl⟩ := c.exists_key
  rw [KeyClass.text_cls, mem_keys, h.isSome]
  rfl

/-- There are as many entries as classes that have a value. -/
theorem StandsFor.encard_live (h : StandsFor m d) : m.live.encard = d.length := by
  -- classes have different texts, so there are as many as stored texts
  have himage : KeyClass.text '' m.live = {s | s ∈ d.keys} := by
    ext s
    constructor
    · rintro ⟨c, hc, rfl⟩
      exact (h.mem_keys_iff c).mpr hc
    · intro hs
      obtain ⟨k, rfl⟩ := h.keyed s hs
      exact ⟨k.cls, (h.mem_keys_iff k.cls).mp hs, rfl⟩
  rw [← KeyClass.text_injective.encard_image, himage, ← List.coe_toFinset,
    Set.encard_coe_eq_coe_finsetCard, List.toFinset_card_of_nodup h.ascending.nodup, keys,
    List.length_map]

/-! ## Changes -/

/-- A dictionary that differs under the text of one key only stands for the map that is changed at
the class of the key. -/
theorem StandsFor.update {d' : Dict Value} {x : Option Value} (h : StandsFor m d) (k : Key t)
    (hasc : d'.Ascending) (hkeyed : ∀ s ∈ d'.keys, ∃ k' : Key t, k'.text = s)
    (hself : d'.find? k.text = x) (hother : ∀ s, s ≠ k.text → d'.find? s = d.find? s) :
    StandsFor (Function.update m k.cls x) d' := by
  refine ⟨hasc, hkeyed, ?_⟩
  intro k'
  -- keys of one class have one text, and keys of two classes have two
  by_cases hk : k'.cls = k.cls
  · rw [hk, Function.update_self, KeyClass.cls_eq_iff.mp hk, hself]
  · have htext : k'.text ≠ k.text := fun heq => hk (KeyClass.cls_eq_iff.mpr heq)
    rw [Function.update_of_ne hk, hother k'.text htext, h.find]

theorem StandsFor.insert (h : StandsFor m d) (k : Key t) (x : Value) :
    StandsFor (Function.update m k.cls (some x)) (d.insert k.text x) := by
  apply h.update k (h.ascending.insert k.text x)
  · intro s hs
    obtain ⟨e, he, rfl⟩ := List.mem_map.mp hs
    rcases mem_of_mem_insert he with rfl | he
    · exact ⟨k, rfl⟩
    · exact h.keyed e.1 (List.mem_map_of_mem he)
  · rw [find?_insert_self]
  · intro s hs
    rw [find?_insert_of_ne hs]

theorem StandsFor.erase (h : StandsFor m d) (k : Key t) :
    StandsFor (Function.update m k.cls none) (d.erase k.text) := by
  apply h.update k (h.ascending.erase k.text)
  · intro s hs
    obtain ⟨e, he, rfl⟩ := List.mem_map.mp hs
    exact h.keyed e.1 (List.mem_map_of_mem (mem_erase.mp he).1)
  · rw [find?_erase_self]
  · intro s hs
    rw [find?_erase_of_ne hs]

theorem StandsFor.modify (h : StandsFor m d) (k : Key t) (x : Value)
    (hlive : (m k.cls).isSome = true) :
    StandsFor (Function.update m k.cls (some x)) (d.modify k.text fun _ => x) := by
  obtain ⟨v, hv⟩ := Option.isSome_iff_exists.mp ((h.isSome k).trans hlive)
  have hkeys := keys_modify k.text (fun _ => x) d
  apply h.update k (h.ascending.of_keys_eq hkeys)
  · rw [hkeys]
    exact h.keyed
  · rw [find?_modify, hv, Option.map_some, if_pos rfl]
  · intro s hs
    simp only [find?_modify, if_neg hs, Option.map_id']

/-- Rewriting values keeps what is stood for if it rewrites types only. -/
theorem StandsFor.map (f : String → Value → Value) (h : StandsFor m d)
    (hf : ∀ s v, (f s v).untyped = v.untyped) :
    StandsFor m (d.map fun e => (e.1, f e.1 e.2)) := by
  refine ⟨h.ascending.map f, ?_, ?_⟩
  · rw [keys_map]
    exact h.keyed
  · intro k
    have huntyped : Value.untyped ∘ f k.text = Value.untyped := funext (hf k.text)
    rw [find?_map, Option.map_map, huntyped, h.find]

/-! ## Entries -/

/-- Except for untyped data, the stored texts are read back as keys of these texts. -/
theorem exists_keys (ht : t ≠ .dynamic) (hkeyed : ∀ s ∈ d.keys, ∃ k : Key t, k.text = s) :
    ∃ es : List (Key t × Value),
      (d.mapM fun e => do
        let key ← Value.ofKeyText t e.1
        pure (key, e.2)) = .ok (es.map fun e => (e.1.value, e.2)) ∧
      es.map (fun e => (e.1.text, e.2)) = d := by
  induction d with
  | nil => exact ⟨[], rfl, rfl⟩
  | cons e rest ih =>
    obtain ⟨s, v⟩ := e
    obtain ⟨k, hk⟩ := hkeyed s (by simp [keys])
    obtain ⟨es, hes, hrest⟩ := ih fun s hs => hkeyed s (List.mem_cons_of_mem _ hs)
    obtain ⟨key, hread, hkey, htext⟩ :=
      k.isKey.ofKeyText?_keyText (k.isKey.fitsText ht) (hk ▸ k.keyText_eq)
    refine ⟨(⟨key, hkey⟩, v) :: es, ?_, ?_⟩
    · rw [List.mapM_cons, hes, Value.ofKeyText_of_ok hread]
      rfl
    · have hs : Key.text ⟨key, hkey⟩ = s := by rw [Key.text, htext]
      rw [List.map_cons, hrest, hs]

/-- The entries are listed once for each class that has a value, in the order of their texts. -/
theorem StandsFor.listed {es : List (Key t × Value)} (h : StandsFor m d)
    (hes : es.map (fun e => (e.1.text, e.2)) = d) :
    (es.map fun e => e.1.text).Pairwise (· < ·) ∧ (es.map fun e => e.1.cls).Nodup ∧
      (∀ c, c ∈ es.map (fun e => e.1.cls) ↔ c ∈ m.live) ∧
      ∀ e ∈ es, (m e.1.cls).map Value.untyped = some e.2.untyped := by
  have hkeys : es.map (fun e => e.1.text) = d.keys := by
    rw [keys, ← hes, List.map_map]
    rfl
  have hclasses : (es.map fun e => e.1.cls).map KeyClass.text = d.keys := by
    rw [← hkeys, List.map_map]
    rfl
  refine ⟨?_, ?_, ?_, ?_⟩
  · rw [hkeys]
    exact h.ascending
  · apply List.Nodup.of_map KeyClass.text
    rw [hclasses]
    exact h.ascending.nodup
  · intro c
    rw [← h.mem_keys_iff, ← hclasses, List.mem_map_of_injective KeyClass.text_injective]
  · intro e he
    have hmem : (e.1.text, e.2) ∈ d := hes ▸ List.mem_map_of_mem he
    rw [← h.find, h.ascending.find?_eq_some.mpr hmem, Option.map_some]

end Dict

end TypedValues
