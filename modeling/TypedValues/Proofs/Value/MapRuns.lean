import TypedValues.Proofs.Value.KeyClasses
import TypedValues.Proofs.Value.Reachable

/-!
# Maps along runs

A map that is filled, changed, copied and refined in any order means at every moment what an
abstract map over the classes of equal keys means that only the changes are made to
(`Value.shows_runAll`). Copies and refinements change nothing of what it means, since they leave
everything but the recorded types as it is.
-/

namespace TypedValues

variable {t : Ty}

/-! ## Operations -/

/-- An operation on a map with keys of a type. -/
inductive MapOp (t : Ty) where
  | insert (key : Key t) (value : Value)
  | remove (key : Key t)
  /-- Overwrites the value under a key in its place, if there is one. -/
  | assign (key : Key t) (value : Value)
  | copy
  /-- Refines the map against a map type of the same key type. -/
  | refine (stamp : Stamp) (value : Ty)

namespace MapOp

def stored : MapOp t → Option Value
  | insert _ x => some x
  | assign _ x => some x
  | _ => none

/-- What an operation makes of a map, with the value that was under its key before. -/
def run : MapOp t → Value → Except Fault (Option Value × Value)
  | insert k x, v => v.insert k.value x
  | remove k, v => v.remove k.value
  | assign k x, v => do
    match ← v.modifyAt (fun old => .ok (old, x)) [.key k.value] with
    | some (old, w) => pure (some old, w)
    | none => pure (none, v)
  | copy, v => .ok (none, v.copy)
  | refine stamp u, v => .ok (none, v.refine (.map stamp t u))

/-- What an operation means. -/
def apply : MapOp t → AbstractMap t → Option Value × AbstractMap t
  | insert k x, m => (m k.cls, Function.update m k.cls (some x))
  | remove k, m => (m k.cls, Function.update m k.cls none)
  | assign k x, m => (m k.cls, if (m k.cls).isSome then Function.update m k.cls (some x) else m)
  | copy, m => (none, m)
  | refine _ _, m => (none, m)

/-- The answers of a row of operations, and the map after them. -/
def runAll : List (MapOp t) → Value → Except Fault (List (Option Value) × Value)
  | [], v => .ok ([], v)
  | op :: rest, v => do
    let (answer, v) ← op.run v
    let (answers, v) ← runAll rest v
    pure (answer :: answers, v)

/-- The answers that a row of operations means, and the abstract map after them. -/
def applyAll : List (MapOp t) → AbstractMap t → List (Option Value) × AbstractMap t
  | [], m => ([], m)
  | op :: rest, m =>
    let (answer, m) := op.apply m
    let (answers, m) := applyAll rest m
    (answer :: answers, m)

end MapOp

/-! ## What a map shows -/

/-- A map shows the meaning of an abstract map to every question that it is asked, but for the
types recorded in its values. -/
structure Value.Shows (m : AbstractMap t) (v : Value) : Prop where
  lookup : ∀ k : Key t, ∃ found, v.lookup k.value = .ok found ∧
    found.map untyped = (m k.cls).map untyped
  containsKey : ∀ k : Key t, v.containsKey k.value = .ok (m k.cls).isSome
  /-- The size is the number of classes that have a value. -/
  size : ∃ n, v.size = .ok n ∧ m.live.encard = n
  /-- The entries list every class that has a value once, in the order of the texts. -/
  entries : t ≠ .dynamic → ∃ es : List (Key t × Value),
    v.entries = .ok (es.map fun e => (e.1.value, e.2)) ∧
      (es.map fun e => e.1.text).Pairwise (· < ·) ∧ (es.map fun e => e.1.cls).Nodup ∧
      (∀ c, c ∈ es.map (fun e => e.1.cls) ↔ c ∈ m.live) ∧
      ∀ e ∈ es, (m e.1.cls).map untyped = some e.2.untyped

/-- A value is a map with keys of a type that holds what an abstract map means. -/
structure Value.MapOf (m : AbstractMap t) (v : Value) : Prop where
  reachable : v.Reachable
  whole : v.flags.branch? = none
  ty : ∃ s u, v.ty = .map s t u
  contents : ∃ d, v.payload = .map d ∧ Dict.StandsFor m d

namespace Value

variable {m : AbstractMap t} {v : Value}

theorem keyAndEntries_of {d : Dict Value} (k : Key t) {s : Stamp} {u : Ty} (hty : v.ty = .map s t u)
    (hp : v.payload = .map d) : v.keyAndEntries k.value = .ok (k.text, d) :=
  keyAndEntries_eq_ok.mpr ⟨t, by rw [hty]; rfl, k.keyText_eq, hp⟩

theorem MapOf.shows (h : v.MapOf m) : v.Shows m := by
  obtain ⟨s, u, hty⟩ := h.ty
  obtain ⟨d, hp, hd⟩ := h.contents
  have hkey (k : Key t) := keyAndEntries_of k hty hp
  have hlookup (k : Key t) : v.lookup k.value = .ok (Dict.find? k.text d) :=
    lookup_eq_ok.mpr ⟨k.text, d, hkey k, rfl⟩
  refine ⟨?_, ?_, ?_, ?_⟩
  · intro k
    exact ⟨_, hlookup k, hd.find k⟩
  · intro k
    rw [containsKey, hlookup, ← hd.isSome]
    rfl
  · refine ⟨d.length, ?_, hd.encard_live⟩
    rw [size, hp]
  · intro ht
    obtain ⟨es, hes, heq⟩ := Dict.exists_keys ht hd.keyed
    exact ⟨es, entries_eq_ok.mpr ⟨t, by rw [hty]; rfl, d, hp, hes⟩, hd.listed heq⟩

/-! ## Operations keep maps and meanings together -/

theorem MapOf.withPayload {d : Dict Value} {m' : AbstractMap t} (h : v.MapOf m)
    (hreach : (v.withPayload (.map d)).Reachable) (hd : Dict.StandsFor m' d) :
    (v.withPayload (.map d)).MapOf m' :=
  ⟨hreach, h.whole, h.ty, d, rfl, hd⟩

/-- A refined map is a map of the same keys, and holds what it held. -/
theorem MapOf.refine (h : v.MapOf m) (stamp : Stamp) (u : Ty) :
    (v.refine (.map stamp t u)).MapOf m := by
  have hreach := h.reachable.refine (.map stamp t u)
  obtain ⟨s, w, hty⟩ := h.ty
  obtain ⟨d, hp, hd⟩ := h.contents
  obtain ⟨l, p⟩ := v
  have hl : l.flags.branch? = none := h.whole
  obtain rfl : p = .map d := hp
  have hty : l.ty = .map s t w := hty
  rw [refine_mk] at hreach ⊢
  refine ⟨hreach, (congrArg Flags.branch? (Label.flags_refine _ l)).trans hl, ?_, ?_⟩
  · -- the map takes the declared type or keeps its own, and both are of keys in `t`
    show ∃ s' u', (l.refine (.map stamp t u)).1.ty = .map s' t u'
    rw [Label.refine_of_whole hl, Label.fst_adopt]
    split
    · unfold Label.replaceTy
      split
      · exact ⟨s, w, hty⟩
      · exact ⟨stamp, u, rfl⟩
    · exact ⟨s, w, hty⟩
  · cases (l.refine (.map stamp t u)).2 with
    | none => exact ⟨d, rfl, hd⟩
    | some declared =>
      refine ⟨_, Payload.refine_eq_mapSlots declared (.map d),
        hd.map (fun s => Payload.refineSlot declared (.entry s)) ?_⟩
      intro s v
      exact Payload.untyped_refineSlot declared (.entry s) v

/-- Overwriting in place answers the value that was there, and stores only where there was one. -/
theorem MapOf.assign (h : v.MapOf m) (k : Key t) {x : Value} (hx : x.Reachable) :
    ∃ answer w, (MapOp.assign k x).run v = .ok (answer, w) ∧
      answer.map untyped = (m k.cls).map untyped ∧ w.MapOf ((MapOp.assign k x).apply m).2 := by
  obtain ⟨s, u, hty⟩ := h.ty
  obtain ⟨d, hp, hd⟩ := h.contents
  have hmodify := modifyAt_key (fun old => .ok (old, x)) (keyAndEntries_of k hty hp)
  have hanswer := hd.find k
  have hlive := hd.isSome k
  cases hfind : Dict.find? k.text d with
  | none =>
    rw [hfind] at hmodify hanswer hlive
    refine ⟨none, v, ?_, hanswer, ?_⟩
    · rw [MapOp.run, hmodify]
      rfl
    · rw [MapOp.apply, ← hlive]
      exact h
  | some old =>
    rw [hfind] at hmodify hanswer hlive
    have hlive : (m k.cls).isSome = true := hlive.symm
    have hplace := replaceAt_entry k.text hp x
    have hreach := h.reachable.replaceAt (.entry k.text) hx
    refine ⟨some old, v.replaceAt (.entry k.text) x, ?_, hanswer, ?_⟩
    · rw [MapOp.run, hmodify]
      rfl
    · rw [MapOp.apply, if_pos hlive]
      rw [hplace] at hreach ⊢
      exact h.withPayload hreach (hd.modify k x hlive)

/-- One operation: it does not fault, answers what it means, and leaves a map that holds what it
means. -/
theorem MapOf.run (h : v.MapOf m) (op : MapOp t) (hop : ∀ x, op.stored = some x → x.Reachable) :
    ∃ answer w, op.run v = .ok (answer, w) ∧
      answer.map untyped = (op.apply m).1.map untyped ∧ w.MapOf (op.apply m).2 := by
  obtain ⟨s, u, hty⟩ := h.ty
  obtain ⟨d, hp, hd⟩ := h.contents
  have hkey (k : Key t) := keyAndEntries_of k hty hp
  -- the changes answer the value that was found under the key
  cases op with
  | insert k x =>
    have hrun : v.insert k.value x = .ok _ :=
      insert_eq_ok.mpr ⟨k.text, d, hkey k, rfl, rfl⟩
    exact ⟨_, _, hrun, hd.find k,
      h.withPayload (.insert h.reachable (hop x rfl) hrun) (hd.insert k x)⟩
  | remove k =>
    have hrun : v.remove k.value = .ok _ := remove_eq_ok.mpr ⟨k.text, d, hkey k, rfl, rfl⟩
    exact ⟨_, _, hrun, hd.find k, h.withPayload (.remove h.reachable hrun) (hd.erase k)⟩
  | assign k x => exact h.assign k (hop x rfl)
  | copy =>
    -- a copy of a reachable value is the value itself
    refine ⟨none, v.copy, rfl, rfl, ?_⟩
    rw [h.reachable.uprightInside.copy_eq]
    exact h
  | refine stamp u => exact ⟨none, _, rfl, rfl, h.refine stamp u⟩

theorem MapOf.runAll (h : v.MapOf m) (ops : List (MapOp t))
    (hops : ∀ op ∈ ops, ∀ x, op.stored = some x → x.Reachable) :
    ∃ answers w, MapOp.runAll ops v = .ok (answers, w) ∧
      answers.map (Option.map untyped) = (MapOp.applyAll ops m).1.map (Option.map untyped) ∧
      w.MapOf (MapOp.applyAll ops m).2 := by
  induction ops generalizing v m with
  | nil => exact ⟨[], v, rfl, rfl, h⟩
  | cons op rest ih =>
    obtain ⟨hop, hrest⟩ := List.forall_mem_cons.mp hops
    obtain ⟨answer, v', hrun, hanswer, hv'⟩ := h.run op hop
    obtain ⟨answers, w, hruns, hanswers, hw⟩ := ih hv' hrest
    refine ⟨answer :: answers, w, ?_, ?_, hw⟩
    · rw [MapOp.runAll, hrun]
      show (MapOp.runAll rest v' >>= _) = _
      rw [hruns]
      rfl
    · rw [MapOp.applyAll, List.map_cons, List.map_cons, hanswer, hanswers]

theorem mapOf_emptyMap (stamp : Stamp) (t u : Ty) :
    ∃ v, emptyMap (.map stamp t u) = .ok v ∧ v.MapOf (fun _ : KeyClass t => none) :=
  ⟨_, rfl, .typed _ fun _ h => (nomatch h), rfl, ⟨stamp, u, rfl⟩, [], rfl, Dict.standsFor_nil⟩

/-- A map simulates an abstract map over the classes of equal keys. Whatever is stored, removed,
overwritten, copied and refined in whatever order, starting from the empty map of any map type,
no operation faults, each answers what it means, and the map after them shows to every question
what the abstract map means, but for the types recorded in values. -/
theorem shows_runAll (stamp : Stamp) (u : Ty) (ops : List (MapOp t))
    (hops : ∀ op ∈ ops, ∀ x, op.stored = some x → x.Reachable) :
    ∃ v answers w, emptyMap (.map stamp t u) = .ok v ∧ MapOp.runAll ops v = .ok (answers, w) ∧
      answers.map (Option.map untyped) =
        (MapOp.applyAll ops fun _ => none).1.map (Option.map untyped) ∧
      w.Shows (MapOp.applyAll ops fun _ => none).2 := by
  obtain ⟨v, hempty, hv⟩ := mapOf_emptyMap stamp t u
  obtain ⟨answers, w, hrun, hanswers, hw⟩ := hv.runAll ops hops
  exact ⟨v, answers, w, hempty, hrun, hanswers, hw.shows⟩

def zeroKey (negative : Bool) : Key .float := ⟨float (.number negative .zero), .float _⟩

theorem cls_zeroKey (negative : Bool) : (zeroKey negative).cls = (zeroKey false).cls :=
  Quotient.sound (by cases negative <;> rfl)

/-- Storing under both zeroes, with a copy and a refinement between. -/
def bothZeroes : List (MapOp .float) :=
  [.insert (zeroKey false) (int 1), .copy, .refine .blank .int, .insert (zeroKey true) (int 2)]

/-- The second storing answers the first value, and the key is in the map. -/
theorem shows_bothZeroes :
    ∃ v answers w, emptyMap (.map .blank .float .int) = .ok v ∧
      MapOp.runAll bothZeroes v = .ok (answers, w) ∧
      answers.map (Option.map untyped) = [none, none, none, some (int 1).untyped] ∧
      w.containsKey (zeroKey false).value = .ok true := by
  have hops : ∀ op ∈ bothZeroes, ∀ x, op.stored = some x → x.Reachable := by
    have hint (n : Int64) : Reachable (int n) := .typed _ fun _ h => nomatch h
    simp [bothZeroes, MapOp.stored, hint]
  obtain ⟨v, answers, w, hv, hrun, hanswers, hw⟩ := shows_runAll .blank .int bothZeroes hops
  refine ⟨v, answers, w, hv, hrun, ?_, ?_⟩
  · rw [hanswers]
    simp [bothZeroes, MapOp.applyAll, MapOp.apply, cls_zeroKey]
  · rw [hw.containsKey]
    simp [bothZeroes, MapOp.applyAll, MapOp.apply, cls_zeroKey]

end Value

end TypedValues
