import TypedValues.Proofs.HostData.Tagged
import TypedValues.Value.Place

/-!
# Equality is an equivalence

The kind of a value picks what equality looks at. What it sees there (`Operand.seen?`) is the number,
the text, the data, the closure or the place, with the two zeros and all patterns of "not a number"
taken together, or nothing if the contents are of no use to the kind. Two operands of one kind are
equal exactly if the same is seen in both (`Operand.equals_iff_seen`); so equality is symmetric and
transitive, and a value whose contents fit its kind is equal to itself (`Store.equals_equivalence`).
-/

namespace TypedValues

/-! ## Contents that fit a kind -/

/-- The sort of contents that the values of a kind have, if the kind tells. -/
def Kind.shape? : Kind → Option Shape
  | .void => some .absent
  | .str => some .str
  | .int | .enum => some .int
  | .float => some .float
  | .bool => some .bool
  | .list => some .list
  | .map | .struct => some .map
  | .function => some .function
  | .dynamic => some .dynamic
  | .maybe | .result | .unknown => none

/-- The contents are of the sort that the kind tells. -/
def Value.FitsKind (v : Value) : Prop := ∀ s ∈ v.kind.shape?, v.payload.shape = s

/-! ## What equality sees -/

/-- What equality sees in a value. -/
inductive Seen where
  /-- An empty maybe. -/
  | empty
  | absent
  | bool (b : Bool)
  | int (n : Int64)
  /-- A double in its canonical form. -/
  | float (x : Binary64)
  | str (s : String)
  /-- Untyped data in its tagged form. -/
  | data (tagged : Json)
  | closure (id : Nat)
  | place (p : Place)

namespace Payload

/-- What is seen in contents that are compared by value. -/
def seenScalar? : Payload → Option Seen
  | absent => some .absent
  | bool b => some (.bool b)
  | int n => some (.int n)
  | float x => some (.float x.canonical)
  | str s => some (.str s)
  | _ => none

def seenData? : Payload → Option Seen
  | dynamic d => some (.data d.toTagged)
  | _ => none

def seenClosure? : Payload → Option Seen
  | function c => some (.closure c.id)
  | _ => none

/-- What is seen in contents of any sort that are in a place. -/
def seen (p : Place) : Payload → Seen
  | absent => .absent
  | bool b => .bool b
  | int n => .int n
  | float x => .float x.canonical
  | str s => .str s
  | list _ | map _ => .place p
  | function c => .closure c.id
  | dynamic d => .data d.toTagged

variable {a b : Payload}

theorem sameScalar_iff_seen :
    a.sameScalar b = true ↔ a.seenScalar?.isSome = true ∧ a.seenScalar? = b.seenScalar? := by
  cases a <;> cases b <;> simp [sameScalar, seenScalar?, Binary64.same_iff_canonical]

theorem sameData_iff_seen :
    a.sameData b = true ↔ a.seenData?.isSome = true ∧ a.seenData? = b.seenData? := by
  cases a <;> cases b <;> simp [sameData, seenData?, HostData.toTagged_eq_iff]

theorem sameClosure_iff_seen :
    a.sameClosure b = true ↔ a.seenClosure?.isSome = true ∧ a.seenClosure? = b.seenClosure? := by
  cases a <;> cases b <;> simp [sameClosure, seenClosure?]

/-- Two contents of any sort are equal exactly if the same is seen in them, provided that there is
one thing in one place. -/
theorem identical_iff_seen {p q : Place} (h : p = q → a = b) :
    a.identical (p = q) b = true ↔ a.seen p = b.seen q := by
  cases a <;> cases b <;>
    simp_all [identical, sameScalar, sameClosure, sameData, seen, Binary64.same_iff_canonical,
      HostData.toTagged_eq_iff]

theorem isSome_seenScalar?_iff :
    a.seenScalar?.isSome = true ↔ a.shape ∈ [.absent, .bool, .int, .float, .str] := by
  cases a <;> simp [seenScalar?, shape]

theorem isSome_seenData?_iff : a.seenData?.isSome = true ↔ a.shape = .dynamic := by
  cases a <;> simp [seenData?, shape]

theorem isSome_seenClosure?_iff : a.seenClosure?.isSome = true ↔ a.shape = .function := by
  cases a <;> simp [seenClosure?, shape]

theorem seen_ne_empty (p : Place) (a : Payload) : a.seen p ≠ .empty := by
  cases a <;> exact nofun

end Payload

namespace Operand

/-- What equality sees in an operand. -/
def seen? (a : Operand) : Option Seen :=
  match a.value.kind with
  | .void | .str | .int | .float | .bool | .enum => a.value.payload.seenScalar?
  | .dynamic => a.value.payload.seenData?
  | .function => a.value.payload.seenClosure?
  | .maybe => some (if a.value.isNone then .empty else a.value.payload.seen a.place)
  | .list | .map | .struct | .result | .unknown => some (a.value.payload.seen a.place)

/-- Operands of one kind are equal exactly if something is seen in them, and the same in both. -/
theorem equals_iff_seen {a b : Operand} (hkind : a.value.kind = b.value.kind)
    (hplace : a.place = b.place → a.value = b.value) :
    a.equals b = true ↔ a.seen?.isSome = true ∧ a.seen? = b.seen? := by
  have hcontents : a.value.payload.identical (a.place = b.place) b.value.payload = true ↔
      a.value.payload.seen a.place = b.value.payload.seen b.place :=
    Payload.identical_iff_seen fun h => congrArg Value.payload (hplace h)
  rw [equals, Value.equals, seen?, seen?, ← hkind]
  cases a.value.kind with
  | void | str | int | float | bool | enum => exact Payload.sameScalar_iff_seen
  | dynamic => exact Payload.sameData_iff_seen
  | function => exact Payload.sameClosure_iff_seen
  | list | map | struct | result | unknown => simp [hcontents]
  | maybe =>
    -- two filled maybes are compared by their contents, in which no empty one is seen
    have ha := Payload.seen_ne_empty a.place a.value.payload
    have hb := Payload.seen_ne_empty b.place b.value.payload
    cases a.value.isNone <;> cases b.value.isNone <;> simp [hcontents, ha, hb.symm]

/-- Something is seen in contents that fit the kind. -/
theorem isSome_seen?_of_fitsKind {a : Operand} (h : a.value.FitsKind) : a.seen?.isSome = true := by
  rw [Value.FitsKind] at h
  rw [seen?]
  cases hkind : a.value.kind with
  | void | str | int | float | bool | enum =>
    rw [hkind] at h
    exact Payload.isSome_seenScalar?_iff.mpr (by simp [h _ rfl])
  | dynamic =>
    rw [hkind] at h
    exact Payload.isSome_seenData?_iff.mpr (h _ rfl)
  | function =>
    rw [hkind] at h
    exact Payload.isSome_seenClosure?_iff.mpr (h _ rfl)
  | maybe | list | map | struct | result | unknown => rfl

end Operand

/-! ## The laws -/

/-- The values in all places at one time. -/
abbrev Store := Place → Value

def Store.operand (store : Store) (p : Place) : Operand := ⟨p, store p⟩

theorem Store.equals_iff_seen (store : Store) {p q : Place} (h : (store p).kind = (store q).kind) :
    (store.operand p).equals (store.operand q) = true ↔
      (store.operand p).seen?.isSome = true ∧ (store.operand p).seen? = (store.operand q).seen? :=
  Operand.equals_iff_seen h fun hplace => congrArg store hplace

/-- Among values of one kind, wherever they are, equality is symmetric and transitive, and a value
whose contents fit its kind is equal to itself. -/
theorem Store.equals_equivalence (store : Store) {p q r : Place}
    (hpq : (store p).kind = (store q).kind) (hqr : (store q).kind = (store r).kind) :
    (store.operand p).equals (store.operand q) = (store.operand q).equals (store.operand p) ∧
      ((store.operand p).equals (store.operand q) = true →
        (store.operand q).equals (store.operand r) = true →
          (store.operand p).equals (store.operand r) = true) ∧
      ((store p).FitsKind → (store.operand p).equals (store.operand p) = true) := by
  refine ⟨?_, ?_, ?_⟩
  · rw [Bool.eq_iff_iff, store.equals_iff_seen hpq, store.equals_iff_seen hpq.symm]
    constructor
    · rintro ⟨hseen, heq⟩
      exact ⟨heq ▸ hseen, heq.symm⟩
    · rintro ⟨hseen, heq⟩
      exact ⟨heq ▸ hseen, heq.symm⟩
  · rw [store.equals_iff_seen hpq, store.equals_iff_seen hqr, store.equals_iff_seen (hpq.trans hqr)]
    rintro ⟨hseen, heq⟩ ⟨-, heq'⟩
    exact ⟨hseen, heq.trans heq'⟩
  · intro hfits
    rw [store.equals_iff_seen rfl]
    exact ⟨Operand.isSome_seen?_of_fitsKind hfits, rfl⟩

/-- Untyped data with a "not a number" and a zero in it, both of one sign. -/
def drift (negative : Bool) : Value :=
  .dynamic (.mapping [("drift", .seq [.float (.nan negative), .float (.number negative .zero)])])

/-- The signs alternate from place to place, and the data in all places are equal. -/
theorem Store.equals_drift :
    let store : Store := fun p => drift (p = .temporary 1)
    let a := store.operand (.temporary 0)
    let b := store.operand (.temporary 1)
    let c := store.operand (.temporary 2)
    a.value.kind = b.value.kind ∧ b.value.kind = c.value.kind ∧ a.value.FitsKind ∧
      a.equals b = true ∧ b.equals a = true ∧ b.equals c = true ∧ a.equals c = true ∧
      a.equals a = true := by
  intro store a b c
  have hfits : a.value.FitsKind := fun _ hs => Option.some.inj hs
  have hab : a.equals b = true := rfl
  have hbc : b.equals c = true := rfl
  obtain ⟨hsymm, htrans, hrefl⟩ := store.equals_equivalence (p := .temporary 0)
    (q := .temporary 1) (r := .temporary 2) rfl rfl
  exact ⟨rfl, rfl, hfits, hab, hsymm ▸ hab, hbc, htrans hab hbc, hrefl hfits⟩

end TypedValues
