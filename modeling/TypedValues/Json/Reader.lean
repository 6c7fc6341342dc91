import TypedValues.Json.Scanner

/-!
# Reading JSON

Tokens are put together into a tree by one pass. Between two tokens the pass holds the
containers that wait for a value, innermost first, and what may come next. A text is refused
when more containers are open at one time than the limit allows.
-/

namespace TypedValues.Json

/-- A container that waits for the value being read, with what came before it. -/
inductive Frame where
  | item (before : List Json)
  | member (before : List (String × Json)) (name : String)

/-- What may come next. -/
inductive Phase where
  /-- A value. -/
  | value
  /-- After an opening bracket: a value or the end. -/
  | firstItem
  /-- After an item: a comma or the end. -/
  | afterItem (items : List Json)
  /-- After an opening brace: a name or the end. -/
  | firstName
  /-- After a comma in an object: a name. -/
  | nextName (members : List (String × Json))
  /-- After a name: a colon. -/
  | afterName (members : List (String × Json)) (name : String)
  /-- After a member: a comma or the end. -/
  | afterMember (members : List (String × Json))
  /-- After the whole value: nothing. -/
  | finished (j : Json)

/-- A reading between two tokens. -/
structure Reading where
  waiting : List Frame
  phase : Phase

namespace Reading

/-- Hands a finished value to the container that waits for it. -/
def attach (waiting : List Frame) (j : Json) : Reading :=
  match waiting with
  | [] => ⟨[], .finished j⟩
  | .item before :: rest => ⟨rest, .afterItem (before ++ [j])⟩
  | .member before name :: rest => ⟨rest, .afterMember (before ++ [(name, j)])⟩

/-- Starts a value. A container is opened only if fewer than `limit` are open. -/
def start (limit : Nat) (waiting : List Frame) : Token → Option Reading
  | .null => some (attach waiting .null)
  | .bool b => some (attach waiting (.bool b))
  | .number n => some (attach waiting (.number n))
  | .str s => some (attach waiting (.str s))
  | .openBracket => if waiting.length < limit then some ⟨waiting, .firstItem⟩ else none
  | .openBrace => if waiting.length < limit then some ⟨waiting, .firstName⟩ else none
  | _ => none

def step (limit : Nat) (r : Reading) (t : Token) : Option Reading :=
  match r.phase, t with
  | .value, t => start limit r.waiting t
  | .firstItem, .closeBracket => some (attach r.waiting (.arr []))
  | .firstItem, t => start limit (.item [] :: r.waiting) t
  | .afterItem items, .closeBracket => some (attach r.waiting (.arr items))
  -- a comma calls for an item or a name, so that none may end a container
  | .afterItem items, .comma => some ⟨.item items :: r.waiting, .value⟩
  | .firstName, .closeBrace => some (attach r.waiting (.obj []))
  | .firstName, .str name => some ⟨r.waiting, .afterName [] name⟩
  | .nextName members, .str name => some ⟨r.waiting, .afterName members name⟩
  | .afterName members name, .colon => some ⟨.member members name :: r.waiting, .value⟩
  | .afterMember members, .closeBrace => some (attach r.waiting (.obj members))
  | .afterMember members, .comma => some ⟨r.waiting, .nextName members⟩
  | _, _ => none

/-- The tree, if the whole value has been read. -/
def result? (r : Reading) : Option Json :=
  match r.phase with
  | .finished j => some j
  | _ => none

end Reading

/-- How many containers may be open at one time: a text that nests deeper is refused. -/
def nestingLimit : Nat := 127

def ofTokens? (limit : Nat) (tokens : List Token) : Option Json :=
  (tokens.foldlM (Reading.step limit) ⟨[], .value⟩).bind Reading.result?

/-- Reads a whole text as JSON. -/
def read? (text : List Char) : Option Json :=
  (tokens? text).bind (ofTokens? nestingLimit)

end TypedValues.Json
