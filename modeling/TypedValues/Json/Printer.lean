import TypedValues.Json.Basic

/-!
# Writing JSON

JSON texts are written without any white space. A string is written with the short escapes
where there is one, the other controls as `\u00xx`, and every other character as it is.
-/

namespace TypedValues.Json

/-- The digit of a number below sixteen, in lower case. -/
def hexDigit (n : Nat) : Char := Nat.digitChar n

/-- How a character stands in a JSON string. -/
def escapeChar (c : Char) : List Char :=
  if c = '"' then ['\\', '"']
  else if c = '\\' then ['\\', '\\']
  else if c = '\x08' then ['\\', 'b']
  else if c = '\x0c' then ['\\', 'f']
  else if c = '\n' then ['\\', 'n']
  else if c = '\r' then ['\\', 'r']
  else if c = '\t' then ['\\', 't']
  else if c.toNat < 0x20 then
    ['\\', 'u', '0', '0', hexDigit (c.toNat / 16), hexDigit (c.toNat % 16)]
  else [c]

def stringText (s : String) : List Char := '"' :: s.toList.flatMap escapeChar ++ ['"']

mutual

/-- Writes a tree in front of a text. -/
def write : Json → List Char → List Char
  | null, after => 'n' :: 'u' :: 'l' :: 'l' :: after
  | bool true, after => 't' :: 'r' :: 'u' :: 'e' :: after
  | bool false, after => 'f' :: 'a' :: 'l' :: 's' :: 'e' :: after
  | number n, after => n.text true ++ after
  | str s, after => stringText s ++ after
  | arr items, after => '[' :: writeItems items (']' :: after)
  | obj members, after => '{' :: writeMembers members ('}' :: after)

/-- Writes the items of an array in front of a text, with commas between them. -/
def writeItems : List Json → List Char → List Char
  | [], after => after
  | [j], after => write j after
  | j :: rest, after => write j (',' :: writeItems rest after)

def writeMembers : List (String × Json) → List Char → List Char
  | [], after => after
  | [(name, j)], after => stringText name ++ ':' :: write j after
  | (name, j) :: rest, after =>
    stringText name ++ ':' :: write j (',' :: writeMembers rest after)

end

def text (j : Json) : List Char := write j []

end TypedValues.Json
