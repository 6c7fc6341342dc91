import TypedValues.HostData.Text
import TypedValues.Text.Inspection
import TypedValues.Value.Basic

/-!
# Values as text

The text for readers shows contents: `[1, 2]`, `Some(3)`, `Point { x: 1 }`, `Color::Red`. The
recorded type only decides how the outermost layer is framed. The inspection text shows the
label too, apart from the type that an arm came from. It is written piece by piece after what
stands before it, since it is long and values nest deep.
-/

namespace TypedValues

/-! ## For readers -/

/-- The text of contents of a type, as `Some` for every maybe in a row. -/
def Ty.someFrame : Ty → String → String
  | .maybe _ inner, text => Text.tagged "Some" (someFrame inner text)
  | _, text => text

/-- The type inside a row of maybes. -/
def Ty.core : Ty → Ty
  | .maybe _ inner => core inner
  | t => t

/-- The text of an integer of a type. A discriminant shows as its member. -/
def Ty.intText (t : Ty) (n : Int64) : String :=
  match t with
  | .enum _ name _ =>
    match t.memberName? n with
    | some member => name ++ "::" ++ member
    | none => Text.tagged name (TypedValues.intText n)
  | _ => TypedValues.intText n

/-- The text of the entries of a type, given theirs. A struct shows its declared fields first, in
declaration order, as far as they are there, and after them the other ones. -/
def Ty.entriesText (t : Ty) (texts : Dict String) : String :=
  -- one entry or field, its text already made
  let line (e : String × String) : String := e.1 ++ ": " ++ e.2
  match t with
  | .struct _ name _ fields =>
    let declared := fields.filterMap fun f => (texts.find? f.1).map fun text => (f.1, text)
    let extra := texts.filter fun e => (t.field? e.1).isNone
    match declared ++ extra with
    | [] => name ++ " \x7b\x7d"
    | es => Text.framed (name ++ " \x7b ") " \x7d" (es.map line)
  | _ => Text.framed "\x7b" "\x7d" (texts.map line)

/-- The text of a value that has no contents. -/
def Ty.absentText : Ty → String
  | .maybe _ _ => "None"
  | .prim .void => "void"
  | _ => "<absent>"

def Flags.armFrame (f : Flags) (text : String) : String :=
  if f.ok then Text.tagged "Ok" text
  else if f.err then Text.tagged "Err" text
  else text

mutual

def Value.display : Value → String
  | ⟨label, payload⟩ => label.flags.armFrame (payload.display label.ty)

def Payload.display (t : Ty) : Payload → String
  | .absent => t.absentText
  | .bool b => t.someFrame (Text.ofBool b)
  | .int n => t.someFrame (t.core.intText n)
  | .float x => t.someFrame x.plainText
  | .str s => t.someFrame s
  | .list items => t.someFrame (Text.framed "[" "]" (Payload.displayItems items))
  | .map entries => t.someFrame (t.core.entriesText (Payload.displayEntries entries))
  | .function _ => t.someFrame ("<" ++ t.core.name ++ ">")
  | .dynamic d => t.someFrame d.display

def Payload.displayItems : List Value → List String
  | [] => []
  | v :: rest => v.display :: Payload.displayItems rest

def Payload.displayEntries : List (String × Value) → List (String × String)
  | [] => []
  | (k, v) :: rest => (k, v.display) :: Payload.displayEntries rest

end

/-! ## For inspection -/

def Flags.inspect (f : Flags) : String := Text.flagSet "VariantFlags" f.names

def Closure.inspect : Closure → String
  | native _ name _ _ => Text.tagged "NativeFunction" name
  | lambda _ params tag =>
    Text.record "Lambda" [("tag", Text.quote tag), ("params", toString params.length)]
  | bound _ receiver method =>
    Text.record "BoundMethod"
      [("receiver", Text.quote receiver.typeName), ("method", method.inspect)]

/-- The inspection text of a label, as the parts of a record in front of the contents. -/
def Label.inspect (l : Label) : String :=
  "ty: " ++ Text.quote l.name ++ ", kind: " ++ l.kind.inspect ++ ", flags: " ++ l.flags.inspect

mutual

/-- Writes the inspection text of a value after a text. -/
def Value.writeInspection : Value → String → String
  | ⟨label, payload⟩, before =>
    payload.writeInspection (before ++ "Value \x7b " ++ label.inspect ++ ", payload: ") ++ " \x7d"

def Payload.writeInspection : Payload → String → String
  | .absent, before => before ++ "Absent"
  | .bool b, before => before ++ Text.tagged "Bool" (Text.ofBool b)
  | .int n, before => before ++ Text.tagged "Int" (intText n)
  | .float x, before => before ++ Text.tagged "Float" x.inspectionText
  | .str s, before => before ++ Text.tagged "Str" (Text.quote s)
  | .list items, before => Payload.writeItems items (before ++ "List([") ++ "])"
  | .map entries, before => Payload.writeEntries entries (before ++ "Map(\x7b") ++ "\x7d)"
  | .function c, before => before ++ Text.tagged "Function" c.inspect
  | .dynamic d, before => before ++ Text.tagged "Dynamic" d.inspect

/-- Writes the inspection texts of items after a text, with commas between them. -/
def Payload.writeItems : List Value → String → String
  | [], before => before
  | [v], before => v.writeInspection before
  | v :: rest, before => Payload.writeItems rest (v.writeInspection before ++ ", ")

def Payload.writeEntries : List (String × Value) → String → String
  | [], before => before
  | [(k, v)], before => v.writeInspection (before ++ Text.quote k ++ ": ")
  | (k, v) :: rest, before =>
    Payload.writeEntries rest (v.writeInspection (before ++ Text.quote k ++ ": ") ++ ", ")

end

def Value.inspect (v : Value) : String := v.writeInspection ""

end TypedValues
