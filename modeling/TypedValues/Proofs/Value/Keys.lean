import TypedValues.Proofs.HostData.Reading
import TypedValues.Value.Equality
import TypedValues.Value.Key

/-!
# Keys of maps

A map stores its entries under texts, and two keys share an entry if they have one text. They
have one text exactly if they are equal as values (`Value.keyText_eq_iff_equals`). The text of a
key is read back as an equal key, except that reading stops at a limit of nesting, which writing
does not know (`Value.ofKeyText_keyText_iff_nesting_le`).
-/

namespace TypedValues

/-- The values that a type of keys makes keys of. -/
inductive Value.KeyOf : Ty → Value → Prop
  | str (s : String) : KeyOf .str (.str s)
  | int (n : Int64) : KeyOf .int (.int n)
  | bool (b : Bool) : KeyOf .bool (.bool b)
  | float (x : Binary64) : KeyOf .float (.float x)
  | dynamic (d : HostData) : KeyOf .dynamic (.dynamic d)

namespace Value

variable {t : Ty} {a b : Value}

theorem intText_inj {n m : Int64} : intText n = intText m ↔ n = m := by
  constructor
  · exact Outcome.eq_of_read readInt? readInt?_intText
  · intro h
    rw [h]

theorem ofBool_inj {x y : Bool} : Text.ofBool x = Text.ofBool y ↔ x = y := by
  cases x <;> cases y <;> decide

theorem KeyOf.keyText_ok (ha : KeyOf t a) : ∃ s, a.keyText t = .ok s := by
  cases ha <;> exact ⟨_, rfl⟩

theorem KeyOf.keyText_eq_iff (samePlace : Bool) (ha : KeyOf t a) (hb : KeyOf t b) :
    a.keyText t = b.keyText t ↔ a.equals samePlace b = true := by
  have hok {s u : String} {p : Prop} (h : s = u ↔ p) :
      (.ok s : Except Fault String) = .ok u ↔ p := by
    rw [Except.ok.injEq]
    exact h
  cases ha with
  | str s =>
    cases hb with
    | str u => exact hok beq_iff_eq.symm
  | int n =>
    cases hb with
    | int m => exact hok (intText_inj.trans beq_iff_eq.symm)
  | bool x =>
    cases hb with
    | bool y => exact hok (ofBool_inj.trans beq_iff_eq.symm)
  | float x =>
    cases hb with
    | float y => exact hok (x.keyText_eq_iff y)
  | dynamic d =>
    cases hb with
    | dynamic e => exact hok (d.taggedText_eq_iff e)

/-- Two keys share an entry exactly if they are equal, wherever they are stored. -/
theorem keyText_eq_iff_equals (samePlace : Bool) (ha : KeyOf t a) (hb : KeyOf t b) :
    ∃ s u, a.keyText t = .ok s ∧ b.keyText t = .ok u ∧ (s = u ↔ a.equals samePlace b = true) := by
  obtain ⟨s, hs⟩ := ha.keyText_ok
  obtain ⟨u, hu⟩ := hb.keyText_ok
  refine ⟨s, u, hs, hu, ?_⟩
  rw [← ha.keyText_eq_iff samePlace hb, hs, hu, Except.ok.injEq]

/-- A sequence of "not a number" and a zero, as a key. -/
def nanAndZero (negative : Bool) : Value :=
  dynamic (.seq [.float .nan, .float (.number negative .zero)])

/-- Whatever the sign of the zero, the key has one entry. -/
theorem keyText_nanAndZero :
    KeyOf .dynamic (nanAndZero true) ∧ KeyOf .dynamic (nanAndZero false) ∧
      ∃ s, (nanAndZero true).keyText .dynamic = .ok s ∧ (nanAndZero false).keyText .dynamic = .ok s := by
  have hequal : (nanAndZero true).equals false (nanAndZero false) = true := rfl
  obtain ⟨s, u, ha, hb, hiff⟩ := keyText_eq_iff_equals false
    (KeyOf.dynamic (.seq [.float .nan, .float (.number true .zero)]))
    (KeyOf.dynamic (.seq [.float .nan, .float (.number false .zero)]))
  obtain rfl := hiff.mpr hequal
  exact ⟨.dynamic _, .dynamic _, s, ha, hb⟩

/-! ## Keys read back -/

/-- Untyped data in the key is in order and nests no deeper than texts are read. -/
def FitsText (k : Value) : Prop := ∀ d, k.payload = .dynamic d → d.Fits Json.nestingLimit

theorem KeyOf.fitsText (ha : KeyOf t a) (ht : t ≠ .dynamic) : a.FitsText := by
  intro d hd
  cases ha with
  | dynamic => contradiction
  | _ => cases hd

/-- The text of a key that fits is read back as a key of the same text. -/
theorem KeyOf.ofKeyText?_keyText {s : String} (ha : KeyOf t a) (hfits : a.FitsText)
    (hs : a.keyText t = .ok s) :
    ∃ k, ofKeyText? t s = .ok k ∧ KeyOf t k ∧ k.keyText t = .ok s := by
  cases ha with
  | str s =>
    cases hs
    exact ⟨.str s, rfl, .str s, rfl⟩
  | int n =>
    cases hs
    refine ⟨.int n, ?_, .int n, rfl⟩
    simp [ofKeyText?, readInt?_intText]
  | bool x =>
    cases hs
    refine ⟨.bool x, ?_, .bool x, rfl⟩
    cases x <;> rfl
  | float x =>
    cases hs
    refine ⟨.float x.canonical, ?_, .float _, congrArg Except.ok x.keyText_canonical⟩
    simp [ofKeyText?, Binary64.read?_keyText]
  | dynamic d =>
    cases hs
    obtain ⟨d', hread, hsame⟩ := HostData.readTagged?_taggedText (hfits d rfl)
    refine ⟨.dynamic d', ?_, .dynamic d', congrArg Except.ok hsame⟩
    simp [ofKeyText?, hread]

/-- What is read from any text is a key that fits. -/
theorem keyOf_of_ofKeyText? {k : Value} {s : String} (h : ofKeyText? t s = .ok k) :
    KeyOf t k ∧ k.FitsText := by
  have orMalformed {α : Type} {x : Option α} {make : α → Value} {e : KeyError}
      (h : (x.map make).elim (.error e) .ok = Except.ok k) : ∃ a, x = some a ∧ make a = k := by
    cases x with
    | none => contradiction
    | some a => exact ⟨a, rfl, Except.ok.inj h⟩
  have hscalar (hkey : KeyOf t k) (ht : t ≠ .dynamic) : KeyOf t k ∧ k.FitsText :=
    ⟨hkey, hkey.fitsText ht⟩
  unfold ofKeyText? at h
  split at h
  · cases h
    exact hscalar (.str s) nofun
  · obtain ⟨n, -, rfl⟩ := orMalformed h
    exact hscalar (.int n) nofun
  · split at h
    · cases h
      exact hscalar (.bool true) nofun
    · split at h
      · cases h
        exact hscalar (.bool false) nofun
      · contradiction
  · obtain ⟨x, -, rfl⟩ := orMalformed h
    exact hscalar (.float x) nofun
  · obtain ⟨d, hread, rfl⟩ := orMalformed h
    refine ⟨.dynamic d, ?_⟩
    rintro d' ⟨⟩
    exact HostData.fits_of_readTagged? hread
  · contradiction

/-- Texts and truth values are written as they were read. -/
theorem keyText_of_ofKeyText? {k : Value} {s : String} (ht : t = .str ∨ t = .bool)
    (h : ofKeyText? t s = .ok k) : k.keyText t = .ok s := by
  rcases ht with rfl | rfl
  · cases h
    rfl
  · unfold ofKeyText? at h
    dsimp only at h
    split at h
    · next htrue =>
      cases h
      rw [htrue]
      rfl
    · split at h
      · next hfalse =>
        cases h
        rw [hfalse]
        rfl
      · contradiction

/-- What is read from any text has a text of its own, and that is read back as a key of the same
text. -/
theorem exists_keyText_of_ofKeyText? {k : Value} {s : String} (h : ofKeyText? t s = .ok k) :
    ∃ u, k.keyText t = .ok u ∧
      ∃ k', ofKeyText? t u = .ok k' ∧ KeyOf t k' ∧ k'.keyText t = .ok u := by
  obtain ⟨hkey, hfits⟩ := keyOf_of_ofKeyText? h
  obtain ⟨u, hu⟩ := hkey.keyText_ok
  exact ⟨u, hu, hkey.ofKeyText?_keyText hfits hu⟩

theorem ofKeyText_of_ok {k : Value} {s : String} (h : ofKeyText? t s = .ok k) :
    ofKeyText t s = .ok k := by
  rw [ofKeyText, h]

/-- How deep the text of a key nests. -/
def keyNesting (k : Value) : Nat :=
  match k.payload with
  | .dynamic d => d.nesting
  | _ => 0

/-- The text of data that nests deeper than texts are read is a fault, as if the map were
damaged. -/
theorem ofKeyText_taggedText_of_lt {d : HostData} (h : Json.nestingLimit < d.nesting) :
    ofKeyText .dynamic d.taggedText =
      .error ⟨.keyText d.taggedText Ty.dynamic.name, Ty.dynamic.name⟩ := by
  simp [ofKeyText, ofKeyText?, HostData.readTagged?_taggedText_of_lt h]

/-- Every key has a text. The text is read back, as an equal key of the same text, exactly if it
nests no deeper than texts are read; the text of any other key is a fault. -/
theorem ofKeyText_keyText_iff_nesting_le (samePlace : Bool) (ha : KeyOf t a)
    (hordered : ∀ d, a.payload = .dynamic d → d.Ordered) :
    ∃ s, a.keyText t = .ok s ∧
      ((∃ k, ofKeyText t s = .ok k ∧ k.equals samePlace a = true ∧ k.keyText t = .ok s) ↔
        a.keyNesting ≤ Json.nestingLimit) ∧
      (Json.nestingLimit < a.keyNesting →
        ofKeyText t s = .error ⟨.keyText s t.name, t.name⟩) := by
  obtain ⟨s, hs⟩ := ha.keyText_ok
  have hdeep : Json.nestingLimit < a.keyNesting →
      ofKeyText t s = .error ⟨.keyText s t.name, t.name⟩ := by
    intro hlt
    cases ha with
    | dynamic d =>
      cases hs
      exact ofKeyText_taggedText_of_lt hlt
    | _ => contradiction
  refine ⟨s, hs, ?_, hdeep⟩
  constructor
  · rintro ⟨k, hk, -⟩
    by_contra hlt
    rw [hdeep (by omega)] at hk
    contradiction
  · intro hle
    have hfits : a.FitsText := by
      intro d hd
      refine ⟨hordered d hd, ?_⟩
      rwa [keyNesting, hd] at hle
    obtain ⟨k, hread, hkey, htext⟩ := ha.ofKeyText?_keyText hfits hs
    refine ⟨k, ofKeyText_of_ok hread, ?_, htext⟩
    rw [← hkey.keyText_eq_iff samePlace ha, htext, hs]

/-- An integer inside 63 sequences is as deep as texts are read, and is read back. -/
theorem ofKeyText_deepest :
    ∃ d : HostData, d = (HostData.int 1).inSequences 63 ∧ KeyOf .dynamic (dynamic d) ∧ d.Ordered ∧
      ∃ s k, (dynamic d).keyText .dynamic = .ok s ∧ ofKeyText .dynamic s = .ok k ∧
        k.equals false (dynamic d) = true ∧ k.keyText .dynamic = .ok s := by
  have hscalar : (HostData.int 1).Ordered := .of_leaf rfl nofun
  have hordered := HostData.ordered_inSequences hscalar 63
  have hnesting : ((HostData.int 1).inSequences 63).nesting ≤ Json.nestingLimit := by
    rw [HostData.nesting_inSequences]
    decide
  generalize hd : (HostData.int 1).inSequences 63 = d at hordered hnesting
  have hpayload : ∀ e, (dynamic d).payload = .dynamic e → e.Ordered := by
    rintro e ⟨⟩
    exact hordered
  obtain ⟨s, hs, hiff, -⟩ := ofKeyText_keyText_iff_nesting_le false (.dynamic d) hpayload
  obtain ⟨k, hread, hequal, htext⟩ := hiff.mpr hnesting
  exact ⟨d, rfl, .dynamic d, hordered, s, k, hs, hread, hequal, htext⟩

/-- Null inside 64 sequences has a text as a key, and the text is not read back. -/
theorem ofKeyText_tooDeep :
    ∃ d : HostData, d = HostData.null.inSequences 64 ∧ KeyOf .dynamic (dynamic d) ∧ d.Ordered ∧
      ∃ s, (dynamic d).keyText .dynamic = .ok s ∧
        ofKeyText .dynamic s = .error ⟨.keyText s "Dynamic", "Dynamic"⟩ := by
  have hnull : HostData.null.Ordered := .of_leaf rfl nofun
  have hdeep : Json.nestingLimit < (HostData.null.inSequences 64).nesting := by
    rw [HostData.nesting_inSequences]
    decide
  have hname : Ty.dynamic.name = "Dynamic" := by
    simp [Primitive.name]
  refine ⟨_, rfl, .dynamic _, HostData.ordered_inSequences hnull 64, _, rfl, ?_⟩
  rw [← hname]
  exact ofKeyText_taggedText_of_lt hdeep

end Value

end TypedValues
