import Offside.Scan.Fault
import Offside.Scope.Error

/-!
# `Offside.Command.Failure`: why a command fails

A command fails in one of three ways: the source is wrong, an operation on contexts is, or
something around them is, such as a file that cannot be read. The last kind of failure is a
chain of explanations, from what was attempted to what went wrong.
-/

set_option autoImplicit false

namespace Offside.Command

/-- Why a command fails. -/
inductive Failure where
  /-- Something around the program, explained from the outside inwards. -/
  | internal (explanations : List String)
  /-- A fault in the source. -/
  | scan (e : Scan.Error)
  /-- A failed operation on contexts. -/
  | scope (e : Scope.Error)
deriving DecidableEq, Repr

/-- The wording of a failure. -/
def Failure.text : Failure → String
  | internal explanations => ": ".intercalate explanations
  | scan e => "Scan error at " ++ e.text
  | scope e => "Scope error: " ++ e.message

end Offside.Command
