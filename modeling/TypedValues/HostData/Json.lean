import TypedValues.Binary64.Text
import TypedValues.HostData.Number
import TypedValues.Json.Printer
import TypedValues.Json.Reader

/-!
# Host data as JSON

The plain form, for exchange with the host: each tree stands for itself, without marks. An
integer is written without point and power of ten and a float always with one of them, so that
reading gives each back as what it was. A float that is not finite is written as null.
-/

namespace TypedValues.HostData

def floatJson : Binary64 → Json
  | .nan _ _ => .null
  | .number negative x =>
    if x.isFinite then .number (Binary64.numeral .json negative x) else .null

mutual

def toJson : HostData → Json
  | null => .null
  | bool b => .bool b
  | int n => .number (.ofInt n.toInt)
  | float x => floatJson x
  | str s => .str s
  | seq items => .arr (itemsToJson items)
  | mapping entries => .obj (entriesToJson entries)

def itemsToJson : List HostData → List Json
  | [] => []
  | d :: rest => toJson d :: itemsToJson rest

def entriesToJson : List (String × HostData) → List (String × Json)
  | [] => []
  | (k, d) :: rest => (k, toJson d) :: entriesToJson rest

end

mutual

/-- The host data of a JSON tree; none if a number in it has no value. -/
def ofJson? : Json → Option HostData
  | .null => some null
  | .bool b => some (bool b)
  | .number n => ofNumeral? n
  | .str s => some (str s)
  | .arr items => (itemsOfJson? items).map seq
  | .obj members => (membersOfJson? members).map ofEntries

def itemsOfJson? : List Json → Option (List HostData)
  | [] => some []
  | j :: rest => (ofJson? j).bind fun d => (itemsOfJson? rest).map (d :: ·)

/-- The host data of the members of an object, in the order written. -/
def membersOfJson? : List (String × Json) → Option (List (String × HostData))
  | [] => some []
  | (k, j) :: rest => (ofJson? j).bind fun d => (membersOfJson? rest).map ((k, d) :: ·)

end

def jsonText (d : HostData) : String := String.ofList d.toJson.text
def readJson? (text : String) : Option HostData := (Json.read? text.toList).bind ofJson?

end TypedValues.HostData
