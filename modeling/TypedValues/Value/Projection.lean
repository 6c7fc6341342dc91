import TypedValues.HostData.Json
import TypedValues.Value.Basic

/-!
# Projection to host data

The host sees the contents of a value without types and narrowings: lists as sequences, maps
and structs as mappings under the texts of their keys, nothing as null. A function shows as the
name of its type, and a closure in a value of another kind by its own name.
-/

namespace TypedValues

/-- The name that stands for a closure without one. -/
def anonymousClosure : String := "fn"

mutual

/-- The host data of a value. -/
def Value.project : Value → HostData
  | ⟨label, payload⟩ =>
    if label.kind = .function then .str label.name else payload.project

def Payload.project : Payload → HostData
  | .absent => .null
  | .bool b => .bool b
  | .int n => .int n
  | .float x => .float x
  | .str s => .str s
  | .list items => .seq (Payload.projectItems items)
  | .map entries => .mapping (Payload.projectEntries entries)
  | .function c => .str (c.name?.getD anonymousClosure)
  | .dynamic d => d

def Payload.projectItems : List Value → List HostData
  | [] => []
  | v :: rest => v.project :: Payload.projectItems rest

def Payload.projectEntries : List (String × Value) → List (String × HostData)
  | [] => []
  | (k, v) :: rest => (k, v.project) :: Payload.projectEntries rest

end

/-- The projection of a value as a JSON text. -/
def Value.jsonText (v : Value) : String := v.project.jsonText

end TypedValues
