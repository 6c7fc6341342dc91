import TypedValues.Text.Quoted

/-!
# Pieces of inspection text

Sequences, records and the other frames that inspection texts and texts for readers are put
together from.
-/

namespace TypedValues.Text

def ofBool (b : Bool) : String := if b then "true" else "false"

/-- The parts with commas between them, framed by `left` and `right`. -/
def framed (left right : String) (parts : List String) : String :=
  left ++ String.intercalate ", " parts ++ right

/-- One part in parentheses after a name. -/
def tagged (name part : String) : String := name ++ "(" ++ part ++ ")"

/-- A record: a name and named parts in braces. -/
def record (name : String) (parts : List (String × String)) : String :=
  framed (name ++ " \x7b ") " \x7d" (parts.map fun p => p.1 ++ ": " ++ p.2)

/-- A set of flags by their names; the empty set is written as the number zero. -/
def flagSet (name : String) (flags : List String) : String :=
  tagged name (if flags.isEmpty then "0x0" else String.intercalate " | " flags)

end TypedValues.Text
