import TypedValues.Ty.Interner
import TypedValues.Value.Copy

/-!
# Maybes and arms of results

Filling and emptying maybes, and marking values as arms of results. A filled maybe takes the
contents of its element only: the narrowing of the element is not kept. An arm keeps the type of
the value it is.
-/

namespace TypedValues.Value

/-! ## Maybes -/

/-- The label of an empty maybe of a type. -/
def noneLabel (t : Ty) : Label := { Label.ofTy t with flags := { Flags.empty with none := true } }

/-- The empty maybe of a maybe type. -/
def noneOf (t : Ty) : Except Fault Value := (require .maybe t).map fun _ => ⟨noneLabel t, .absent⟩

/-- The filled maybe of a maybe type, with the contents of an element. -/
def someOf (t : Ty) (element : Value) : Except Fault Value := typedAs .maybe t element.payload

/-- The empty maybe of an element type. -/
def makeNone (elem : Ty) : Interning (Except Fault Value) := do
  let t ← Intern.maybe elem
  pure (noneOf t)

/-- The filled maybe of the type of an element. -/
def makeSome (element : Value) : Interning Value := do
  let t ← Intern.maybe element.ty
  pure (typed t element.payload)

/-- A filled maybe of the type of this maybe. -/
def toSome (v element : Value) : Except Fault Value := someOf v.ty element

def toNone (v : Value) : Except Fault Value := noneOf v.ty

/-- The element of a filled maybe, copied. -/
def unwrapSome (v : Value) : Except Fault Value :=
  match v.ty.inner? with
  | none => .error ⟨.kind .maybe, v.ty.name⟩
  | some inner =>
    if v.isNone then .error ⟨.filledMaybe, v.ty.name⟩ else .ok (typed inner v.payload.copy)

/-! ## Arms of results -/

/-- The value as an arm. -/
def narrow (branch : Branch) (origin : Option Ty) (v : Value) : Value :=
  { v with label := v.label.narrow branch origin }

/-- The value as an arm of a result of which nothing else is known. -/
def makeArm (branch : Branch) (v : Value) : Value := v.narrow branch none

/-- The value as an arm of a result type. -/
def makeArmIn (branch : Branch) (v : Value) (t : Ty) : Except Fault Value :=
  (require .result t).map fun _ => v.narrow branch (some t)

end TypedValues.Value
