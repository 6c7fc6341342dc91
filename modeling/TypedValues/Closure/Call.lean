import TypedValues.Value.Copy

/-!
# Calling closures

A call hands arguments to what the closure stands for: a function of the host, or a body that
the evaluator knows by its tag. Both are supplied from outside. A bound method puts a copy of
its receiver in front of the arguments, so that no call can change the receiver.
-/

namespace TypedValues

/-- Whether a call may see the state around it. -/
inductive CallMode where
  | shared
  | isolated
  deriving DecidableEq, Repr

/-- What closures stand for: functions by the name the host knows them under, which see no state
in either mode, and bodies by their tags. -/
structure Host where
  native : String → List Value → Except Fault Value
  body : CallMode → String → List Value → Except Fault Value

namespace Closure

def call (host : Host) (mode : CallMode) : Closure → List Value → Except Fault Value
  | native _ _ _ name, args => host.native name args
  | lambda _ _ tag, args => host.body mode tag args
  -- each call has a copy of its own
  | bound _ receiver method, args => method.call host mode (receiver.copy :: args)

end Closure

end TypedValues
