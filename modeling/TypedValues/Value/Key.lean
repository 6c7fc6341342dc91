import TypedValues.HostData.Tagged
import TypedValues.HostData.Text
import TypedValues.Value.Basic
import TypedValues.Value.Error

/-!
# Map keys as text

The entries of a map are stored under texts, one for each class of equal keys. Texts stand for
themselves, integers and truth values for their usual form, floats for their shortest plain
text, and untyped data for its tagged JSON. Reading a key accepts more spellings than writing
one produces.
-/

namespace TypedValues

/-- The text of a key, for a map of the key type. -/
def Value.keyText (keyType : Ty) (key : Value) : Except Fault String :=
  match keyType, key.payload with
  | .prim .str, .str s => .ok s
  | .prim .int, .int n => .ok (intText n)
  | .prim .bool, .bool b => .ok (Text.ofBool b)
  | .prim .float, .float x => .ok x.keyText
  | .prim .dynamic, .dynamic d => .ok d.taggedText
  | .prim .str, _ | .prim .int, _ | .prim .bool, _ | .prim .float, _ | .prim .dynamic, _ =>
    .error ⟨.key keyType.name, key.ty.name⟩
  | _, _ => .error ⟨.keyable, keyType.name⟩

/-- The key that a text is, for a map of the key type. -/
def Value.ofKeyText? (keyType : Ty) (text : String) : Except KeyError Value :=
  let orMalformed (v : Option Value) : Except KeyError Value :=
    v.elim (.error (.malformed text keyType.name)) .ok
  match keyType with
  | .prim .str => .ok (.str text)
  | .prim .int => orMalformed ((readInt? text).map .int)
  | .prim .bool =>
    orMalformed
      (if text = "true" then some (.bool true)
       else if text = "false" then some (.bool false)
       else none)
  | .prim .float => orMalformed ((Binary64.read? text.toList).map .float)
  | .prim .dynamic => orMalformed ((HostData.readTagged? text).map .dynamic)
  | _ => .error (.unsupported keyType.name)

/-- The key that a stored text is; a fault if it is none. -/
def Value.ofKeyText (keyType : Ty) (text : String) : Except Fault Value :=
  match ofKeyText? keyType text with
  | .ok v => .ok v
  | .error _ => .error ⟨.keyText text keyType.name, keyType.name⟩

end TypedValues
