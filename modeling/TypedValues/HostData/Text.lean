import TypedValues.Binary64.Text
import TypedValues.HostData.Basic
import TypedValues.Text.Inspection

/-!
# Host data as text

The text of host data for readers looks like JSON with spaces, and floats in plain layout. The
inspection text names the sort of every node.
-/

namespace TypedValues

def Binary64.plainText (x : Binary64) : String := String.ofList (x.text .plain)
def Binary64.inspectionText (x : Binary64) : String := String.ofList (x.text .inspection)

namespace HostData

mutual

/-- The text for readers. -/
def display : HostData → String
  | null => "null"
  | bool b => Text.ofBool b
  | int n => intText n
  | float x => x.plainText
  | str s => Text.quote s
  | seq items => Text.framed "[" "]" (displayItems items)
  | mapping entries => Text.framed "\x7b" "\x7d" (displayEntries entries)

def displayItems : List HostData → List String
  | [] => []
  | d :: rest => display d :: displayItems rest

def displayEntries : List (String × HostData) → List String
  | [] => []
  | (k, d) :: rest => (Text.quote k ++ ": " ++ display d) :: displayEntries rest

end

mutual

def inspect : HostData → String
  | null => "Null"
  | bool b => Text.tagged "Bool" (Text.ofBool b)
  | int n => Text.tagged "Int" (intText n)
  | float x => Text.tagged "Float" x.inspectionText
  | str s => Text.tagged "Str" (Text.quote s)
  | seq items => Text.framed "List([" "])" (inspectItems items)
  | mapping entries => Text.framed "Map(\x7b" "\x7d)" (inspectEntries entries)

def inspectItems : List HostData → List String
  | [] => []
  | d :: rest => inspect d :: inspectItems rest

def inspectEntries : List (String × HostData) → List String
  | [] => []
  | (k, d) :: rest => (Text.quote k ++ ": " ++ inspect d) :: inspectEntries rest

end

end HostData

end TypedValues
