import TypedValues.Value.Basic

/-!
# Copies

A copy is a value of its own: what is done to it later does not show in the value it was taken
of. It has the type, the narrowing and the contents of that value, with every value inside copied
in turn; closures are shared, since calling one does not change it. An empty maybe has no
contents to copy.
-/

namespace TypedValues

/-- The label of a copy: that of a new value of the type, with the narrowing kept. -/
def Label.copy (l : Label) : Label := { ofTy l.ty with flags := l.flags, origin := l.origin }

/-- Whether a value with this label is copied without its contents. -/
def Label.dropsPayload (l : Label) : Bool := l.kind == .maybe && l.flags.none

mutual

/-- A copy of a value. -/
def Value.copy : Value → Value
  | ⟨label, payload⟩ =>
    ⟨label.copy, if label.dropsPayload then .absent else payload.copy⟩

def Payload.copy : Payload → Payload
  | .absent => .absent
  | .bool b => .bool b
  | .int n => .int n
  | .float x => .float x
  | .str s => .str s
  | .list items => .list (Payload.copyItems items)
  | .map entries => .map (Payload.copyEntries entries)
  | .function c => .function c
  | .dynamic d => .dynamic d

def Payload.copyItems : List Value → List Value
  | [] => []
  | v :: rest => v.copy :: Payload.copyItems rest

def Payload.copyEntries : List (String × Value) → List (String × Value)
  | [] => []
  | (k, v) :: rest => (k, v.copy) :: Payload.copyEntries rest

end

/-- The items of a list are copied one by one. -/
theorem Payload.copyItems_eq_map (items : List Value) :
    Payload.copyItems items = items.map Value.copy := by
  induction items with
  | nil => rfl
  | cons v rest ih => simp [Payload.copyItems, ih]

/-- The entries of a map are copied one by one, under the same keys. -/
theorem Payload.copyEntries_eq_map (entries : List (String × Value)) :
    Payload.copyEntries entries = entries.map fun e => (e.1, e.2.copy) := by
  induction entries with
  | nil => rfl
  | cons e rest ih => obtain ⟨k, v⟩ := e; simp [Payload.copyEntries, ih]

end TypedValues
