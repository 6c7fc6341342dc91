import TypedValues.Value.Collection
import TypedValues.Value.Error
import TypedValues.Value.Narrowing

/-!
# Decoding host data

A value of a type from host data. Texts, integers and truth values come from data of their
sort, floats from floats and integers, untyped data from anything; lists from sequences, maps
from mappings whose keys are keys of the key type; a maybe from null or from data of its inner
type; a result from a mapping whose one entry is `Ok` or `Err`; a struct from a mapping with
exactly the declared fields; an enum from the name or the discriminant of a member. Void,
functions and open parameters have no data. Where data is at fault in two ways the first in the
order of the data is reported, undeclared fields before missing ones.
-/

namespace TypedValues

/-- How decoding fails: the data is at fault, or a value was built against its promise. -/
inductive DecodeFailure where
  | error (e : DecodeError)
  | fault (f : Fault)
  deriving DecidableEq, Repr

abbrev Decoded (α : Type) := Except DecodeFailure α

namespace Decoded

/-- Refuses the data. -/
def reject {α : Type} (e : DecodeError) : Decoded α := .error (.error e)

/-- Takes over a value that was built, or the fault in building it. -/
def ofBuilt {α : Type} : Except Fault α → Decoded α
  | .ok a => .ok a
  | .error f => .error (.fault f)

/-- Takes over a key that was read, or the error in reading it. -/
def ofKey {α : Type} : Except KeyError α → Decoded α
  | .ok a => .ok a
  | .error e => reject (.key e)

end Decoded

namespace Value

/-- The data is of another sort than the type takes. -/
def mismatched {α : Type} (t : Ty) (d : HostData) : Decoded α :=
  .reject (.mismatch t.name d.kindName)

/-- Fills a map with the entries of a mapping: each key is read, the data decoded, and the value
stored under the text that the key is written as. -/
def decodeEntries (keyType : Ty) (decodeValue : HostData → Decoded Value) :
    Value → List (String × HostData) → Decoded Value
  | map, [] => .ok map
  | map, (text, d) :: rest => do
    let key ← Decoded.ofKey (ofKeyText? keyType text)
    let value ← decodeValue d
    -- an equal key that was stored before gives way without a word
    let (_, map) ← Decoded.ofBuilt (map.insert key value)
    decodeEntries keyType decodeValue map rest

/-- The value of an enum of the type that data names. -/
def decodeMember (t : Ty) (enum : String) : HostData → Decoded Value
  | .str member =>
    match t.discriminant? member with
    | some d => Decoded.ofBuilt (enumMember t d)
    | none => .reject (.unknownMember enum ("`" ++ member ++ "`"))
  | .int d =>
    match t.memberName? d with
    | some _ => Decoded.ofBuilt (enumMember t d)
    | none => .reject (.unknownMember enum (intText d))
  | d => mismatched t d

def decodePrimitive : Primitive → HostData → Decoded Value
  | .str, .str s => .ok (.str s)
  | .int, .int n => .ok (.int n)
  | .bool, .bool b => .ok (.bool b)
  | .float, .float x => .ok (.float x)
  | .float, .int n => .ok (.float (.ofInt n))
  | .dynamic, d => .ok (.dynamic d)
  | .void, _ => .reject (.unsupported Ty.void.name)
  | p, d => mismatched (.prim p) d

mutual

/-- Decodes a value of a type. -/
def decode (t : Ty) (d : HostData) : Decoded Value :=
  match t with
  | .prim p => decodePrimitive p d
  | .list _ elem =>
    match d with
    | .seq items => do Decoded.ofBuilt (list t (← items.mapM (decode elem)))
    | _ => mismatched t d
  | .map _ key value =>
    match d with
    | .mapping entries => do
      let empty ← Decoded.ofBuilt (emptyMap t)
      decodeEntries key (decode value) empty entries
    | _ => mismatched t d
  | .maybe _ inner =>
    match d with
    | .null => Decoded.ofBuilt (noneOf t)
    | _ => do
      let element ← decode inner d
      Decoded.ofBuilt (do (← noneOf t).toSome element)
  | .result _ ok err =>
    match d with
    | .mapping [(arm, d')] =>
      if arm = "Ok" then do Decoded.ofBuilt (makeArmIn .ok (← decode ok d') t)
      else if arm = "Err" then do Decoded.ofBuilt (makeArmIn .err (← decode err d') t)
      else mismatched t d
    | _ => mismatched t d
  | .struct _ name _ fields =>
    match d with
    | .mapping entries =>
      -- an entry that is not declared is refused before any field is decoded
      match entries.find? (fun e => (t.field? e.1).isNone) with
      | some (field, _) => .reject (.unknownField name field)
      | none => do Decoded.ofBuilt (struct t (← decodeFields name fields entries))
    | _ => mismatched t d
  | .enum _ name _ => decodeMember t name d
  | .function _ _ _ _ | .var _ _ => .reject (.unsupported t.name)

/-- Decodes the declared fields of a struct, in declaration order. -/
def decodeFields (struct : String) :
    List (String × Ty) → Dict HostData → Decoded (List (String × Value))
  | [], _ => .ok []
  | (name, t) :: rest, entries =>
    match entries.find? name with
    | none => .reject (.missingField struct name)
    | some d => do
      let v ← decode t d
      let vs ← decodeFields struct rest entries
      pure ((name, v) :: vs)

end

end Value

end TypedValues
