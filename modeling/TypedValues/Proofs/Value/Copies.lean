import TypedValues.Proofs.Value.Equivalence
import TypedValues.Proofs.Value.Histories

/-!
# Copies are exact

The kind of a value picks a policy for its contents: they are copied, shared, or left out of an
empty maybe. Whichever it is, a value that came about by the operations is copied exactly, at every
depth (`Value.copy_exact`), since it never has contents while it is marked as an empty maybe. Only
equality tells the copy of a list or of a map from the original, since the copy is in a place of its
own.
-/

namespace TypedValues

/-! ## Policies -/

/-- How the contents of a value are copied. -/
inductive CopyPolicy where
  /-- With every value inside copied. -/
  | inside
  /-- As `inside` for a filled maybe; an empty one is copied without contents. -/
  | filled
  /-- Shared, since they never change. -/
  | shared

/-- The policy of a kind. -/
def Kind.copyPolicy : Kind → CopyPolicy
  | .struct | .list | .map | .result | .dynamic | .unknown => .inside
  | .maybe => .filled
  | .enum | .function | .void | .str | .int | .float | .bool => .shared

/-- Contents for a second owner. Those that have values inside cannot be shared, nor can untyped
data: if a kind asks for it nevertheless, they are copied. -/
def Payload.share : Payload → Payload
  | absent => absent
  | bool b => bool b
  | int n => int n
  | float x => float x
  | str s => str s
  | function c => function c
  | list items => (list items).copy
  | map entries => (map entries).copy
  | dynamic d => (dynamic d).copy

/-- Contents copied by a policy, out of a value that may be an empty maybe. -/
def Payload.copyBy (policy : CopyPolicy) (isNone : Bool) (p : Payload) : Payload :=
  match policy with
  | .inside => p.copy
  | .filled => if isNone then absent else p.copy
  | .shared => p.share

/-- A value copied by the policy of its kind. -/
def Value.copyByPolicy (v : Value) : Value :=
  ⟨v.label.copy, v.payload.copyBy v.kind.copyPolicy v.isNone⟩

theorem Payload.share_eq_copy (p : Payload) : p.share = p.copy := by
  cases p <;> rfl

namespace Value

/-- A copy is one by the policy of the kind. -/
theorem copyByPolicy_eq_copy (v : Value) : v.copyByPolicy = v.copy := by
  obtain ⟨label, payload⟩ := v
  rw [copyByPolicy, copy, Label.dropsPayload, kind, isNone, flags]
  cases label.kind <;> simp [Kind.copyPolicy, Payload.copyBy, Payload.share_eq_copy]

end Value

/-! ## Copies and originals -/

/-- In two places the same is seen in contents, unless it is the places that are seen. -/
theorem Payload.seen_eq_seen_iff {p q : Place} (h : p ≠ q) (a : Payload) :
    a.seen p = a.seen q ↔ a.shape ≠ .list ∧ a.shape ≠ .map := by
  cases a <;> simp [seen, shape, h]

namespace Value

variable {v : Value} {p q : Place}

/-- A value is equal to what is the same in another place exactly if it is neither a list nor a
map. -/
theorem equals_elsewhere_iff (hpq : p ≠ q) (hfits : v.FitsKind)
    (hempty : v.isNone = true → v.payload = .absent) :
    Operand.equals ⟨p, v⟩ ⟨q, v⟩ = true ↔ v.payload.shape ≠ .list ∧ v.payload.shape ≠ .map := by
  have hseen : Operand.equals ⟨p, v⟩ ⟨q, v⟩ = true ↔
      Operand.seen? ⟨p, v⟩ = Operand.seen? ⟨q, v⟩ := by
    have hsome : (Operand.seen? ⟨p, v⟩).isSome = true := Operand.isSome_seen?_of_fitsKind hfits
    rw [Operand.equals_iff_seen (a := ⟨p, v⟩) (b := ⟨q, v⟩) rfl fun h => absurd h hpq]
    exact and_iff_right hsome
  have hcontents : some (v.payload.seen p) = some (v.payload.seen q) ↔
      v.payload.shape ≠ .list ∧ v.payload.shape ≠ .map := by
    rw [Option.some.injEq, Payload.seen_eq_seen_iff hpq]
  rw [FitsKind] at hfits
  rw [hseen, Operand.seen?, Operand.seen?]
  cases hkind : v.kind with
  | void | str | int | float | bool | enum | dynamic | function =>
    -- the kind tells that the contents are no collection, and nothing of the place is seen
    rw [hkind] at hfits
    exact iff_of_true rfl (by simp [hfits _ rfl])
  | list | map | struct | result | unknown => exact hcontents
  | maybe =>
    dsimp only
    cases hnone : v.isNone with
    | true => exact iff_of_true rfl (by simp [hempty hnone, Payload.shape])
    | false => exact hcontents

/-- A value that came about by the operations is copied exactly, by whichever policy: every value
inside has its type, kind, name, flags, origin and contents, and closures are the same closures. If
the contents fit the kind, the copy is equal to the value exactly if they are neither a list nor a
map. -/
theorem copy_exact (h : v.Obtained) :
    v.copy = v ∧ v.copyByPolicy = v ∧
      ∀ p q : Place, p ≠ q → v.FitsKind →
        (Operand.equals ⟨p, v⟩ ⟨q, v.copy⟩ = true ↔
          v.payload.shape ≠ .list ∧ v.payload.shape ≠ .map) := by
  have hupright : v.UprightInside := h.reachable.uprightInside
  have hcopy : v.copy = v := hupright.copy_eq
  refine ⟨hcopy, v.copyByPolicy_eq_copy.trans hcopy, ?_⟩
  intro p q hpq hfits
  rw [hcopy]
  exact equals_elsewhere_iff hpq hfits hupright.here.empty

/-- An arm that is a filled maybe, with a "not a number" as its contents or a list of it. -/
def pendingReading (inList : Bool) : Value :=
  makeArm .ok (typed (.maybe .blank (.var .blank "T"))
    (if inList then .list [.float .nan] else .float .nan))

/-- Both readings are copied exactly. The copy of the number is equal to it, and that of the list is
not. -/
theorem copy_exact_pendingReading :
    (∀ inList, (pendingReading inList).Obtained ∧ (pendingReading inList).FitsKind ∧
      (pendingReading inList).copy = pendingReading inList) ∧
      Operand.equals ⟨.temporary 0, pendingReading false⟩
        ⟨.temporary 1, (pendingReading false).copy⟩ = true ∧
      Operand.equals ⟨.temporary 0, pendingReading true⟩
        ⟨.temporary 1, (pendingReading true).copy⟩ = false := by
  have hplaces : Place.temporary 0 ≠ .temporary 1 := by decide
  have hobtained (inList : Bool) : (pendingReading inList).Obtained := by
    refine .make (List.forall_mem_singleton.mpr (.typed _ ?_)) (.makeArm .ok _)
    cases inList with
    | false => exact fun _ hw => nomatch hw
    | true =>
      exact List.forall_mem_singleton.mpr (.make (List.forall_mem_nil _) (.float .nan))
  have hfits (inList : Bool) : (pendingReading inList).FitsKind := fun _ hs => nomatch hs
  refine ⟨fun inList => ⟨hobtained inList, hfits inList, (copy_exact (hobtained inList)).1⟩, ?_, ?_⟩
  · have hiff := (copy_exact (hobtained false)).2.2 _ _ hplaces (hfits false)
    exact hiff.mpr ⟨nofun, nofun⟩
  · have hiff := (copy_exact (hobtained true)).2.2 _ _ hplaces (hfits true)
    exact Bool.eq_false_iff.mpr fun heq => (hiff.mp heq).1 rfl

end Value

end TypedValues
