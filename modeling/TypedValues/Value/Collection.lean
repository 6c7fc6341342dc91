import TypedValues.Value.Access
import TypedValues.Value.Key

/-!
# Lists, maps and structs

Looking into collections and changing them. A change gives the changed value back, together
with the value it replaced or removed where there was one. Keys of maps are checked before
contents: a value that is not of a map type faults whatever it holds.
-/

namespace TypedValues.Value

def withPayload (v : Value) (p : Payload) : Value := { v with payload := p }

/-! ## Lists -/

/-- Adds an item at the end of a list. -/
def push (v item : Value) : Except Fault Value := do
  let items ← v.asList
  pure (v.withPayload (.list (items ++ [item])))

def get? (v : Value) (index : Nat) : Except Fault (Option Value) := do
  let items ← v.asList
  pure items[index]?

/-! ## Maps -/

def keyType (v : Value) : Except Fault Ty :=
  match v.ty.key? with
  | some t => .ok t
  | none => .error ⟨.kind .map, v.ty.name⟩

/-- The text that a key has in a map, and the entries of the map. -/
def keyAndEntries (v key : Value) : Except Fault (String × Dict Value) := do
  let keyType ← v.keyType
  let text ← key.keyText keyType
  let entries ← v.asMap
  pure (text, entries)

def insert (v key value : Value) : Except Fault (Option Value × Value) := do
  let (text, entries) ← v.keyAndEntries key
  pure (entries.find? text, v.withPayload (.map (entries.insert text value)))

def lookup (v key : Value) : Except Fault (Option Value) := do
  let (text, entries) ← v.keyAndEntries key
  pure (entries.find? text)

def remove (v key : Value) : Except Fault (Option Value × Value) := do
  let (text, entries) ← v.keyAndEntries key
  pure (entries.find? text, v.withPayload (.map (entries.erase text)))

def containsKey (v key : Value) : Except Fault Bool := (v.lookup key).map Option.isSome

/-- The entries of a map in the order of the texts of their keys, the keys as values. -/
def entries (v : Value) : Except Fault (List (Value × Value)) := do
  let keyType ← v.keyType
  let entries ← v.asMap
  entries.mapM fun e => do
    let key ← ofKeyText keyType e.1
    pure (key, e.2)

/-- A map filled with entries one after another. -/
def mapFrom (t : Ty) (entries : List (Value × Value)) : Except Fault Value := do
  let empty ← emptyMap t
  entries.foldlM (fun v e => (v.insert e.1 e.2).map Prod.snd) empty

/-! ## Structs -/

/-- The fields of a struct that are there, by name. -/
def asStruct (v : Value) : Except Fault (Dict Value) :=
  if v.kind = .struct then v.asMap else .error ⟨.kind .struct, v.ty.name⟩

def field (v : Value) (name : String) : Except Fault (Option Value) := do
  let fields ← v.asStruct
  pure (fields.find? name)

def setField (v : Value) (name : String) (value : Value) : Except Fault (Option Value × Value) := do
  let fields ← v.asStruct
  pure (fields.find? name, v.withPayload (.map (fields.insert name value)))

/-- The names of the declared fields, in declaration order. -/
def fieldNames (v : Value) : List String := v.ty.fields.map Prod.fst

end TypedValues.Value
