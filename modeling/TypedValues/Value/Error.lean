import TypedValues.HostData.Basic
import TypedValues.Text.Quoted

/-!
# Errors about host input

Unlike a fault, an error is about input that nobody has checked yet: the text of a map key, or
data from the host.
-/

namespace TypedValues

/-- Why a text is no key. -/
inductive KeyError where
  /-- The type cannot index a map. -/
  | unsupported (keyType : String)
  /-- The text is no key of the type. -/
  | malformed (text keyType : String)
  deriving DecidableEq, Repr

def KeyError.message : KeyError → String
  | unsupported keyType => "`" ++ keyType ++ "` cannot be used as a map key"
  | malformed text keyType =>
    "map key " ++ Text.quote text ++ " is not a valid `" ++ keyType ++ "`"

/-- Why host data is no value of a type. -/
inductive DecodeError where
  /-- Another sort of data than the type takes. -/
  | mismatch (expected found : String)
  /-- A declared field without data. -/
  | missingField (struct field : String)
  /-- Data for a field that is not declared. -/
  | unknownField (struct field : String)
  /-- A member that the enum does not have, as the data names it. -/
  | unknownMember (enum member : String)
  /-- A type without values in host data. -/
  | unsupported (ty : String)
  /-- A key that is no key of the key type. -/
  | key (e : KeyError)
  deriving DecidableEq, Repr

def DecodeError.message : DecodeError → String
  | mismatch expected found => "expected `" ++ expected ++ "`, found " ++ found
  | missingField struct field => "missing field `" ++ field ++ "` for struct `" ++ struct ++ "`"
  | unknownField struct field => "struct `" ++ struct ++ "` has no field `" ++ field ++ "`"
  | unknownMember enum member => "enum `" ++ enum ++ "` has no member " ++ member
  | unsupported ty => "values of type `" ++ ty ++ "` cannot be decoded from host data"
  | key e => e.message

end TypedValues
