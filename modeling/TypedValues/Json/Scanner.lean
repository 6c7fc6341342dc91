import TypedValues.Json.Basic

/-!
# JSON tokens

A JSON text is cut into tokens by one pass over its characters. Between two characters the pass
holds the tokens so far and the lexeme it is in the middle of. White space is the space, the tab,
the line feed and the carriage return, and nothing else.
-/

namespace TypedValues.Json

inductive Token where
  | openBracket
  | closeBracket
  | openBrace
  | closeBrace
  | comma
  | colon
  | null
  | bool (b : Bool)
  | number (n : Numeral)
  | str (s : String)

/-- The lexeme a scan is in the middle of. Characters are held in reverse. -/
inductive Lexeme where
  /-- Between two tokens. -/
  | gap
  /-- A run of the characters that numerals are made of. -/
  | numeral (chars : List Char)
  /-- A run of letters. -/
  | word (chars : List Char)
  /-- A string. -/
  | string (chars : List Char)
  /-- A string, after a backslash. -/
  | escape (chars : List Char)
  /-- A string, after a backslash, `u` and some hexadecimal digits; `high` is the first half of a
  pair of code units of which this is the second. -/
  | unit (chars : List Char) (high : Option Nat) (count value : Nat)
  /-- A string, after the first half of a pair of code units. -/
  | pair (chars : List Char) (high : Nat)
  /-- A string, after the first half of a pair of code units and a backslash. -/
  | pairEscape (chars : List Char) (high : Nat)

/-- A scan between two characters: the tokens so far, in reverse, and the lexeme at hand. -/
structure Scan where
  tokens : List Token
  lexeme : Lexeme

def isBlank (c : Char) : Bool := c = ' ' || c = '\t' || c = '\n' || c = '\r'

def isNumeralChar (c : Char) : Bool :=
  c.isDigit || c = '-' || c = '+' || c = '.' || c = 'e' || c = 'E'

/-- The token of a character that is one. -/
def punctuation? : Char → Option Token
  | '[' => some .openBracket
  | ']' => some .closeBracket
  | '{' => some .openBrace
  | '}' => some .closeBrace
  | ',' => some .comma
  | ':' => some .colon
  | _ => none

def word? : List Char → Option Token
  | ['n', 'u', 'l', 'l'] => some .null
  | ['t', 'r', 'u', 'e'] => some (.bool true)
  | ['f', 'a', 'l', 's', 'e'] => some (.bool false)
  | _ => none

def numeral? (chars : List Char) : Option Token :=
  (Numeral.read? chars).bind fun n => if allowsNumeral n then some (.number n) else none

/-- The value of a hexadecimal digit, of either case. -/
def hexValue? (c : Char) : Option Nat :=
  if c.isDigit then some (c.toNat - '0'.toNat)
  else if 'a' ≤ c ∧ c ≤ 'f' then some (c.toNat - 'a'.toNat + 10)
  else if 'A' ≤ c ∧ c ≤ 'F' then some (c.toNat - 'A'.toNat + 10)
  else none

def shortEscape? : Char → Option Char
  | '"' => some '"'
  | '\\' => some '\\'
  | '/' => some '/'
  | 'b' => some '\x08'
  | 'f' => some '\x0c'
  | 'n' => some '\n'
  | 'r' => some '\r'
  | 't' => some '\t'
  | _ => none

/-- Ends a code unit: a character by itself, the second half of a pair, or the first half of
one. The half of a pair is refused by itself. -/
def endUnit (chars : List Char) (high : Option Nat) (value : Nat) : Option Lexeme :=
  match high with
  | none =>
    -- a second half with no first one before it
    if 0xDC00 ≤ value ∧ value ≤ 0xDFFF then none
    else if 0xD800 ≤ value ∧ value ≤ 0xDBFF then some (.pair chars value)
    else some (.string (Char.ofNat value :: chars))
  | some high =>
    if 0xDC00 ≤ value ∧ value ≤ 0xDFFF then
      some (.string (Char.ofNat (0x10000 + (high - 0xD800) * 0x400 + (value - 0xDC00)) :: chars))
    else none

namespace Scan

/-- Ends the lexeme at hand, if it may end here. -/
def flush (s : Scan) : Option (List Token) :=
  match s.lexeme with
  | .gap => some s.tokens
  | .numeral chars => (numeral? chars.reverse).map (· :: s.tokens)
  | .word chars => (word? chars.reverse).map (· :: s.tokens)
  | _ => none

/-- Starts a lexeme with the character, after the given tokens. -/
def start (tokens : List Token) (c : Char) : Option Scan :=
  if isBlank c then some ⟨tokens, .gap⟩
  else if c = '"' then some ⟨tokens, .string []⟩
  else if isNumeralChar c then some ⟨tokens, .numeral [c]⟩
  else if c.isAlpha then some ⟨tokens, .word [c]⟩
  else (punctuation? c).map fun t => ⟨t :: tokens, .gap⟩

def step (s : Scan) (c : Char) : Option Scan :=
  match s.lexeme with
  | .gap => start s.tokens c
  | .numeral chars =>
    if isNumeralChar c then some ⟨s.tokens, .numeral (c :: chars)⟩
    else s.flush.bind (start · c)
  | .word chars =>
    -- nothing ends a numeral or a word but the character that starts what follows
    if c.isAlpha then some ⟨s.tokens, .word (c :: chars)⟩
    else s.flush.bind (start · c)
  | .string chars =>
    if c = '"' then some ⟨.str (String.ofList chars.reverse) :: s.tokens, .gap⟩
    else if c = '\\' then some ⟨s.tokens, .escape chars⟩
    -- control characters only stand in strings as escapes
    else if c.toNat < 0x20 then none
    else some ⟨s.tokens, .string (c :: chars)⟩
  | .escape chars =>
    if c = 'u' then some ⟨s.tokens, .unit chars none 0 0⟩
    else (shortEscape? c).map fun e => ⟨s.tokens, .string (e :: chars)⟩
  | .unit chars high count value =>
    (hexValue? c).bind fun digit =>
      if count < 3 then some ⟨s.tokens, .unit chars high (count + 1) (value * 16 + digit)⟩
      else (endUnit chars high (value * 16 + digit)).map (⟨s.tokens, ·⟩)
  | .pair chars high => if c = '\\' then some ⟨s.tokens, .pairEscape chars high⟩ else none
  | .pairEscape chars high =>
    if c = 'u' then some ⟨s.tokens, .unit chars (some high) 0 0⟩ else none

end Scan

/-- The tokens of a text, none if some part of the text is no token. -/
def tokens? (text : List Char) : Option (List Token) :=
  (text.foldlM Scan.step ⟨[], .gap⟩).bind Scan.flush |>.map List.reverse

end TypedValues.Json
