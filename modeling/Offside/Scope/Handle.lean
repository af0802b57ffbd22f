/-!
# `Offside.Scope.Handle`: numbers of contexts, scripts and groups

Contexts, scripts and groups are numbered from zero in the order of their creation, each
sort on its own, and a handle is such a number. Context zero is the global one and belongs
to group zero. A handle says nothing about whether anything has that number.
-/

set_option autoImplicit false

namespace Offside.Scope

/-- The number of a context. -/
structure ContextId where
  /-- The number. -/
  index : Nat
deriving DecidableEq, Repr

/-- The number of a script. -/
structure ScriptId where
  /-- The number. -/
  index : Nat
deriving DecidableEq, Repr

/-- The number of a group of scripts. -/
structure GroupId where
  /-- The number. -/
  index : Nat
deriving DecidableEq, Repr

/-- The context that every chain should end at. -/
def ContextId.global : ContextId := ⟨0⟩

/-- The group of the global context. -/
def GroupId.global : GroupId := ⟨0⟩

/-- Contexts are ordered by number. -/
instance : LT ContextId := ⟨fun a b => a.index < b.index⟩

instance : DecidableRel (α := ContextId) (· < ·) := fun a b =>
  inferInstanceAs (Decidable (a.index < b.index))

/-- A context as messages name it. -/
def ContextId.text (id : ContextId) : String :=
  if id = .global then "GLOBAL" else "#" ++ toString id.index

/-- A script as messages name it. -/
def ScriptId.text (id : ScriptId) : String := "ScriptId(" ++ toString id.index ++ ")"

/-- A group as messages name it. -/
def GroupId.text (id : GroupId) : String := "GroupId(" ++ toString id.index ++ ")"

end Offside.Scope
