import Offside.Scope.Handle
import Offside.Scope.Protection

/-!
# `Offside.Scope.Error`: why an operation on contexts fails

A look-up fails because the name is bound nowhere on the chain, because the chain is too
short to start from where it should, or because the binding may not be seen. Any operation
fails on a handle that nothing has.
-/

set_option autoImplicit false

namespace Offside.Scope

/-- Why an operation on contexts fails. -/
inductive Error where
  /-- No context from the given one outwards binds the name. -/
  | variableNotFound (context : ContextId) (name : String)
  /-- The context has fewer parents than asked for. -/
  | chainTooShort (context : ContextId) (depth : Nat)
  /-- No context has this number. -/
  | unknownContext (id : ContextId)
  /-- No script has this number. -/
  | unknownScript (id : ScriptId)
  /-- No group has this number. -/
  | unknownGroup (id : GroupId)
  /-- The binding in the given context may not be seen. -/
  | accessDenied (context : ContextId) (name : String) (protection : Protection)
deriving DecidableEq, Repr

/-- The wording of an error. -/
def Error.message : Error → String
  | variableNotFound context name =>
    "variable '" ++ name ++ "' not found from context " ++ context.text
  | chainTooShort context depth =>
    "parent chain of context " ++ context.text ++ " is shorter than " ++ toString depth
  | unknownContext id => "unknown context " ++ id.text
  | unknownScript id => "unknown script " ++ id.text
  | unknownGroup id => "unknown group " ++ id.text
  | accessDenied context name protection =>
    protection.keyword ++ " variable '" ++ name ++ "' in context " ++ context.text ++
      " is not accessible"

end Offside.Scope
