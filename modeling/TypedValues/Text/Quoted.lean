import TypedValues.Text.Unprintable

/-!
# Quoted text

The form of text in inspection output and in messages: between double quotes, with short
escapes for the quote, the backslash and the usual controls, and every other character without
a visible form written as its code point in braces.
-/

namespace TypedValues.Text

/-- How a character stands inside quotes. -/
def quoteChar (c : Char) : List Char :=
  if c = '"' then ['\\', '"']
  else if c = '\\' then ['\\', '\\']
  else if c = '\n' then ['\\', 'n']
  else if c = '\r' then ['\\', 'r']
  else if c = '\t' then ['\\', 't']
  else if c = '\x00' then ['\\', '0']
  else if isUnprintable c then ['\\', 'u', '{'] ++ Nat.toDigits 16 c.toNat ++ ['}']
  else [c]

/-- The text between double quotes. -/
def quote (s : String) : String :=
  String.ofList ('"' :: s.toList.flatMap quoteChar ++ ['"'])

end TypedValues.Text
