import TypedValues.Closure.Call
import TypedValues.Value.Collection
import TypedValues.Value.Text

/-!
# Built-in functions

The functions that a host without any of its own has, and the bodies it knows: a body answers
with the mode of the call, its tag and the number of arguments.
-/

namespace TypedValues

inductive Builtin where
  /-- The sum of all arguments, modulo `2 ^ 64`. -/
  | add
  /-- The size of the first argument, -1 without arguments. -/
  | len
  /-- The number of arguments. -/
  | argc
  /-- The first argument, or void. -/
  | first
  /-- The first argument with a zero added at its end. -/
  | pushZero
  /-- The names of the types of the arguments. -/
  | types
  /-- The texts of the arguments. -/
  | display
  deriving DecidableEq, Repr

namespace Builtin

def name : Builtin → String
  | add => "add"
  | len => "len"
  | argc => "argc"
  | first => "first"
  | pushZero => "push_zero"
  | types => "types"
  | display => "show"

def all : List Builtin := [add, len, argc, first, pushZero, types, display]
def ofName? (name : String) : Option Builtin := all.find? (·.name == name)

/-- A copy of the first argument, or of void. -/
def firstOf (args : List Value) : Value := (args.head?.getD .void).copy

def run (args : List Value) : Builtin → Except Fault Value
  | add => do pure (.int (← args.foldlM (fun sum v => (sum + ·) <$> v.asInt) 0))
  | len =>
    match args with
    | [] => pure (.int (-1))
    | v :: _ => do pure (.int (Int64.ofNat (← v.size)))
  | argc => pure (.int (Int64.ofNat args.length))
  | first => pure (firstOf args)
  | pushZero => (firstOf args).push (.int 0)
  | types => pure (.str (String.intercalate "," (args.map Value.typeName)))
  | display => pure (.str (String.intercalate ";" (args.map Value.display)))

end Builtin

def CallMode.name : CallMode → String
  | shared => "call"
  | isolated => "isolated"

/-- The host that has the built-in functions only. A name that is none of theirs answers void. -/
def Host.builtin : Host where
  native name args := ((Builtin.ofName? name).map (Builtin.run args)).getD (.ok .void)
  body mode tag args :=
    .ok (.str (mode.name ++ ":" ++ tag ++ ":" ++ toString args.length))

end TypedValues
