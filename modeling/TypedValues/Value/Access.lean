import TypedValues.Value.Basic

/-!
# Access to the contents

Each accessor gives the contents of one sort and faults on every other. The discriminant of an
enum member is not an integer, though both are stored alike.
-/

namespace TypedValues.Value

/-- The fault of meeting other contents than those asked for. -/
def mismatch (v : Value) (wanted : Wanted) : Fault := ⟨.payload wanted v.payload.shape, v.ty.name⟩

def asBool (v : Value) : Except Fault Bool :=
  match v.payload with
  | .bool b => .ok b
  | _ => .error (v.mismatch (.shape .bool))

def asInt (v : Value) : Except Fault Int64 :=
  match v.payload with
  | .int n => if v.kind = .enum then .error (v.mismatch (.shape .int)) else .ok n
  | _ => .error (v.mismatch (.shape .int))

def asFloat (v : Value) : Except Fault Binary64 :=
  match v.payload with
  | .float x => .ok x
  | _ => .error (v.mismatch (.shape .float))

def asStr (v : Value) : Except Fault String :=
  match v.payload with
  | .str s => .ok s
  | _ => .error (v.mismatch (.shape .str))

def discriminant (v : Value) : Except Fault Int64 :=
  match v.payload with
  | .int d => if v.kind = .enum then .ok d else .error (v.mismatch .member)
  | _ => .error (v.mismatch .member)

def asList (v : Value) : Except Fault (List Value) :=
  match v.payload with
  | .list items => .ok items
  | _ => .error (v.mismatch (.shape .list))

/-- The entries of a map by the texts of their keys, or the fields of a struct by name. -/
def asMap (v : Value) : Except Fault (Dict Value) :=
  match v.payload with
  | .map entries => .ok entries
  | _ => .error (v.mismatch (.shape .map))

def asFunction (v : Value) : Except Fault Closure :=
  match v.payload with
  | .function c => .ok c
  | _ => .error (v.mismatch (.shape .function))

def asDynamic (v : Value) : Except Fault HostData :=
  match v.payload with
  | .dynamic d => .ok d
  | _ => .error (v.mismatch (.shape .dynamic))

/-- The name of an enum member, if its discriminant is declared. -/
def memberName? (v : Value) : Option String :=
  match v.payload with
  | .int d => if v.kind = .enum then v.ty.memberName? d else none
  | _ => none

/-- The number of items of a list, entries of a map or fields of a struct. -/
def size (v : Value) : Except Fault Nat :=
  match v.payload with
  | .list items => .ok items.length
  | .map entries => .ok entries.length
  | _ => .error (v.mismatch .collection)

end TypedValues.Value
