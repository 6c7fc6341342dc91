import TypedValues.Dict
import TypedValues.Ty.Interner

/-!
# Substitution

Replacing open parameters by the types bound to them. A part without open parameters is kept as
the node it is; a part with one is built anew through the table, parts first.
-/

namespace TypedValues

/-- The types that open parameters are bound to, by the names of the parameters. -/
abbrev Bindings := Dict Ty

namespace Ty

mutual

/-- Replaces every bound parameter. A parameter without binding stays open. -/
def substitute (bindings : Bindings) (t : Ty) : Interning Ty :=
  -- where nothing is replaced, the answer is the node itself and not another one of its type
  if !t.hasVar || bindings.isEmpty then pure t
  else
    match t with
    | prim p => pure (prim p)
    | list _ elem => do Intern.list (← substitute bindings elem)
    | map _ key value => do
      let key ← substitute bindings key
      let value ← substitute bindings value
      Intern.map key value
    | maybe _ inner => do Intern.maybe (← substitute bindings inner)
    | result _ ok err => do
      let ok ← substitute bindings ok
      let err ← substitute bindings err
      Intern.result ok err
    | struct _ name args fields => do
      let args ← substituteAll bindings args
      let fields ← substituteFields bindings fields
      Intern.struct name args fields
    | enum s name members => pure (enum s name members)
    | function _ name params ret => do
      let params ← substituteParams bindings params
      let ret ← substitute bindings ret
      Intern.function name params ret
    | var s name => pure ((bindings.find? name).getD (var s name))

def substituteAll (bindings : Bindings) : List Ty → Interning (List Ty)
  | [] => pure []
  | t :: ts => do
    let t ← substitute bindings t
    let ts ← substituteAll bindings ts
    pure (t :: ts)

def substituteFields (bindings : Bindings) : List (String × Ty) → Interning (List (String × Ty))
  | [] => pure []
  | (n, t) :: fs => do
    let t ← substitute bindings t
    let fs ← substituteFields bindings fs
    pure ((n, t) :: fs)

def substituteParams (bindings : Bindings) : List (Param Ty) → Interning (List (Param Ty))
  | [] => pure []
  | ⟨n, t, m⟩ :: ps => do
    let t ← substitute bindings t
    let ps ← substituteParams bindings ps
    pure (⟨n, t, m⟩ :: ps)

end

end Ty

end TypedValues
