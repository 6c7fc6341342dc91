import TypedValues.Value.Collection
import TypedValues.Value.Equality

/-!
# Places

A place is a value that is stored, or a value inside another place: an item of a list, an entry
of a map or a field of a struct. Two ways to a value lead to one place if they take the same
steps, however the keys on the way are spelled. A value is changed in its place by rebuilding
the values around it.
-/

namespace TypedValues

/-- A choice of a value inside another, as the caller words it. -/
inductive Selector where
  | item (index : Nat)
  | key (key : Value)
  | field (name : String)

/-- A step from a value to one inside it. -/
inductive Step where
  | item (index : Nat)
  | entry (text : String)
  deriving DecidableEq, Repr

/-- Where a value is. -/
inductive Place where
  /-- A stored value, or one reached from it by steps. -/
  | stored (root : String) (steps : List Step)
  /-- A value that is stored nowhere, by number. -/
  | temporary (number : Nat)
  deriving DecidableEq, Repr

namespace Value

/-- The value that a selector picks, with the step to it. -/
def locate (v : Value) (s : Selector) : Except Fault (Option (Step × Value)) :=
  match s with
  | .item index => do pure ((← v.asList)[index]?.map fun w => (.item index, w))
  | .key key => do
    let (text, entries) ← v.keyAndEntries key
    pure ((entries.find? text).map fun w => (.entry text, w))
  | .field name => do pure (((← v.asStruct).find? name).map fun w => (.entry name, w))

/-- The value that a row of selectors picks, with the steps to it. -/
def locateAll : List Selector → Value → Except Fault (Option (List Step × Value))
  | [], v => .ok (some ([], v))
  | s :: rest, v => do
    match ← v.locate s with
    | none => pure none
    | some (step, w) => do
      pure ((← locateAll rest w).map fun r => (step :: r.1, r.2))

/-- The value with another one at a step that it has. -/
def replaceAt (v : Value) (step : Step) (w : Value) : Value :=
  -- a step that the value does not have changes nothing
  match step, v.payload with
  | .item index, .list items => v.withPayload (.list (items.set index w))
  | .entry text, .map entries => v.withPayload (.map (Dict.modify text (fun _ => w) entries))
  | _, _ => v

/-- Changes the value that a row of selectors picks, in its place; `change` also answers. -/
def modifyAt {α : Type} (change : Value → Except Fault (α × Value)) :
    List Selector → Value → Except Fault (Option (α × Value))
  | [], v => do pure (some (← change v))
  | s :: rest, v => do
    match ← v.locate s with
    | none => pure none
    | some (step, w) => do
      pure ((← modifyAt change rest w).map fun r => (r.1, v.replaceAt step r.2))

end Value

/-- A value in its place. -/
structure Operand where
  place : Place
  value : Value

def Operand.equals (a b : Operand) : Bool := a.value.equals (a.place = b.place) b.value

end TypedValues
