import TypedValues.Ty.Equality
import TypedValues.Value.Basic

/-!
# Refinement

A value may be recorded at a type that is still open, and gets to know a declared type later.
Refinement rewrites labels only, in this order:

1. An arm takes the type of its arm from the result type it came from, which is its own type if
   that is still a result. If the declared type is a result, its arm of the same branch stands
   in its place from here on.
2. A maybe, and a value of an open parameter, take the declared type as a whole.
3. Any other value with a generic name takes a declared type without one, and the values inside
   are refined against the matching parts of the declared type.
-/

namespace TypedValues

namespace Label

/-- The label with the type, unless it has that type already. -/
def replaceTy (t : Ty) (l : Label) : Label := if l.ty == t then l else l.retype t

/-- The result type that an arm came from, as far as it is known. -/
def definition? (l : Label) : Option Ty := if l.kind = .result then some l.ty else l.origin

/-- The first step: the label with its arm resolved, and the declared type for the other steps. -/
def resolveArm (declared : Ty) (l : Label) : Label × Ty :=
  match l.flags.branch? with
  | none => (l, declared)
  | some branch =>
    let resolved :=
      match l.definition?.bind (Ty.arm? branch) with
      | some arm => l.replaceTy arm
      | none => l
    -- a declared result becomes what the arm came from, so that the value stays an arm
    match declared.arm? branch with
    | some arm => ({ resolved with origin := some declared }, arm)
    | none => ({ resolved with origin := l.definition? }, declared)

/-- Refines a label. The type that comes back, if any, is the one whose parts the values inside
are refined against. -/
def refine (declared : Ty) (l : Label) : Label × Option Ty :=
  let (l, declared) := l.resolveArm declared
  -- the values inside keep the types that they have
  if l.ty.isMaybe || l.ty.isVar then (l.replaceTy declared, none)
  else if l.ty.hasGenerics && !declared.hasGenerics then (l.replaceTy declared, some declared)
  else (l, none)

end Label

mutual

/-- Refines a value against a declared type. -/
def Value.refine (declared : Ty) : Value → Value
  | ⟨label, payload⟩ =>
    match label.refine declared with
    | (label, none) => ⟨label, payload⟩
    | (label, some declared) => ⟨label, payload.refine declared⟩

/-- Refines the values inside against the matching parts of a declared type: items against the
element type, the values of a map, never its keys, against the value type, and declared fields
against their types. -/
def Payload.refine (declared : Ty) : Payload → Payload
  | .list items =>
    match declared with
    | .list _ elem => .list (Payload.refineItems elem items)
    | _ => .list items
  | .map entries =>
    match declared with
    | .map _ _ value => .map (Payload.refineEntries (fun _ => some value) entries)
    | .struct _ _ _ fields => .map (Payload.refineEntries (fun name => fields.lookup name) entries)
    | _ => .map entries
  | payload => payload

def Payload.refineItems (elem : Ty) : List Value → List Value
  | [] => []
  | v :: rest => v.refine elem :: Payload.refineItems elem rest

def Payload.refineEntries (types : String → Option Ty) :
    List (String × Value) → List (String × Value)
  | [] => []
  | (k, v) :: rest =>
    (k, match types k with
        | some t => v.refine t
        | none => v) :: Payload.refineEntries types rest

end

end TypedValues
