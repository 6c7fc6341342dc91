import TypedValues.Binary64.Text
import TypedValues.HostData.Number
import TypedValues.Json.Printer
import TypedValues.Json.Reader

/-!
# Host data as a key

The tagged form, for keys of untyped data: every node but null is an object whose one name tells
the sort of data, and floats are texts. So "not a number" and the infinities are told apart from
null, and equal data have one text: the two zeros share the text `0`, and every "not a number"
the text `NaN`.
-/

namespace TypedValues

/-- The text of a float key; the two zeros have one text. -/
def Binary64.keyText (x : Binary64) : String :=
  if x.isZero then "0" else String.ofList (x.text .plain)

namespace HostData

/-- An object with one member. -/
def tag (name : String) (body : Json) : Json := .obj [(name, body)]

mutual

def toTagged : HostData → Json
  | null => .str "Null"
  | bool b => tag "Bool" (.bool b)
  | int n => tag "Int" (.number (.ofInt n.toInt))
  | float x => tag "Float" (.str x.keyText)
  | str s => tag "Str" (.str s)
  | seq items => tag "List" (.arr (itemsToTagged items))
  | mapping entries => tag "Map" (.obj (entriesToTagged entries))

def itemsToTagged : List HostData → List Json
  | [] => []
  | d :: rest => toTagged d :: itemsToTagged rest

def entriesToTagged : List (String × HostData) → List (String × Json)
  | [] => []
  | (k, d) :: rest => (k, toTagged d) :: entriesToTagged rest

end

/-- All the data, if none is missing. -/
def allItems? : List (Option HostData) → Option (List HostData)
  | [] => some []
  | d :: rest => d.bind fun d => (allItems? rest).map (d :: ·)

def allEntries? : List (String × Option HostData) → Option (List (String × HostData))
  | [] => some []
  | (k, d) :: rest => d.bind fun d => (allEntries? rest).map ((k, d) :: ·)

mutual

/-- Reads a tagged tree. The outer option says whether the tree is of tagged form, the inner one
whether the texts of its floats are floats; a float in an entry that a later one replaces is not
looked at. -/
def ofTagged? : Json → Option (Option HostData)
  | .str s => if s = "Null" then some (some null) else none
  | .obj [(name, body)] => ofBody? name body
  | _ => none

/-- Reads what stands under a tag. Null may be tagged too. -/
def ofBody? (name : String) : Json → Option (Option HostData)
  | .null => if name = "Null" then some (some null) else none
  | .bool b => if name = "Bool" then some (some (bool b)) else none
  | .number n => if name = "Int" then n.toJsonInt?.map (some ∘ int) else none
  | .str s =>
    if name = "Str" then some (some (str s))
    else if name = "Float" then some ((Binary64.read? s.toList).map float)
    else none
  | .arr items =>
    if name = "List" then (itemsOfTagged? items).map fun ds => (allItems? ds).map seq else none
  | .obj members =>
    if name = "Map" then
      (membersOfTagged? members).map fun ds => (allEntries? (Dict.ofList ds)).map mapping
    else none

def itemsOfTagged? : List Json → Option (List (Option HostData))
  | [] => some []
  | j :: rest => (ofTagged? j).bind fun d => (itemsOfTagged? rest).map (d :: ·)

/-- Reads the members of a mapping, in the order written. -/
def membersOfTagged? : List (String × Json) → Option (List (String × Option HostData))
  | [] => some []
  | (k, j) :: rest => (ofTagged? j).bind fun d => (membersOfTagged? rest).map ((k, d) :: ·)

end

def taggedText (d : HostData) : String := String.ofList d.toTagged.text

def readTagged? (text : String) : Option HostData :=
  ((Json.read? text.toList).bind ofTagged?).join

end HostData

end TypedValues
