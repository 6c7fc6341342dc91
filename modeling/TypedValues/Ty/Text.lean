import TypedValues.Numeral
import TypedValues.Text.Inspection
import TypedValues.Ty.Interner
import TypedValues.Ty.Traits

/-!
# Inspection text of types

The inspection text of a type is its name in a frame. That of its data opens the outermost
layer and shows the parts by their names.
-/

namespace TypedValues

def Traits.inspect (t : Traits) : String := Text.flagSet "TypeFlags" t.names

namespace Ty

def inspect (t : Ty) : String := Text.tagged "Type" t.name
def inspectPair (a b : String) : String := Text.framed "(" ")" [a, b]
def inspectList (items : List String) : String := Text.framed "[" "]" items

def inspectParam (p : Param Ty) : String :=
  Text.record "Param"
    [("name", Text.quote p.name), ("ty", p.ty.inspect), ("mutable", Text.ofBool p.mutable)]

def inspectName? : Option String → String
  | none => "None"
  | some n => Text.tagged "Some" (Text.quote n)

/-- The inspection text of the outermost layer of a type. -/
def inspectData : Ty → String
  | prim p => p.name
  | list _ elem => Text.tagged "List" elem.inspect
  | map _ key value => Text.record "Map" [("key", key.inspect), ("value", value.inspect)]
  | maybe _ inner => Text.tagged "Maybe" inner.inspect
  | result _ ok err => Text.record "Result" [("ok", ok.inspect), ("err", err.inspect)]
  | struct _ n args fields =>
    Text.tagged "Struct" (Text.record "StructDef"
      [("name", Text.quote n),
        ("type_args", inspectList (args.map inspect)),
        ("fields", inspectList (fields.map fun f => inspectPair (Text.quote f.1) f.2.inspect))])
  | enum _ n members =>
    Text.tagged "Enum" (Text.record "EnumDef"
      [("name", Text.quote n),
        ("variants",
          inspectList (members.map fun m => inspectPair (Text.quote m.1) (intText m.2)))])
  | function _ n params ret =>
    Text.tagged "Function" (Text.record "FunctionDef"
      [("name", inspectName? n),
        ("params", inspectList (params.map inspectParam)),
        ("ret", ret.inspect)])
  | var _ n => Text.tagged "Var" (Text.record "TypeVar" [("name", Text.quote n)])

end Ty

/-- The inspection text of a table that is shared. -/
def Interner.inspect (interner : Interner) : String :=
  Text.record "SharedTypeInterner" [("len", toString interner.size)]

end TypedValues
