import Offside.Scope.Tree

/-!
# `Offside.Scope.Lookup`: finding variables

A variable is looked up from a context outwards: in the context itself, in its parent, and
so on. `ancestors` lists these contexts. The list has no more members than the tree has
contexts, so that it ends on a cyclic chain too, on which some contexts then occur
repeatedly. Every look-up can start a number of parents further out; that walk has no bound
but the number.
-/

set_option autoImplicit false

namespace Offside.Scope

namespace Tree

/-! ### Chains -/

/-- A context and those further out, at most `budget` of them. -/
def chain (t : Tree) : Nat → ContextId → List ContextId
  | 0, _ => []
  | budget + 1, id =>
    id :: match t.parentOf id with
      | some parent => t.chain budget parent
      | none => []

/-- A context, its parent, the parent of that and so on, as many as the tree has contexts at
most. A context that does not exist has none. -/
def ancestors (t : Tree) (id : ContextId) : List ContextId :=
  match t.context? id with
  | some _ => t.chain t.contexts.length id
  | none => []

/-- The context reached by following the given number of parent links, if there are that
many. -/
def climb (t : Tree) : Nat → ContextId → Option ContextId
  | 0, id => some id
  | n + 1, id =>
    match t.parentOf id with
    | some parent => t.climb n parent
    | none => none

/-- The context the given number of parents further out. -/
def nthParent (t : Tree) (id : ContextId) (n : Nat) : Except Error ContextId := do
  let _ ← t.context id
  match t.climb n id with
  | some c => return c
  | none => throw (.chainTooShort id n)

/-! ### Bindings -/

/-- What a context itself binds a name to. -/
def localSlot? (t : Tree) (id : ContextId) (name : String) : Option Slot :=
  (t.context? id).bind (fun c => c.bindings.find? name)

/-- Whether a context itself binds a name. -/
def binds (t : Tree) (id : ContextId) (name : String) : Bool := (t.localSlot? id name).isSome

/-- The nearest context that binds a name, from `n` parents further out than `id`. -/
def ownerOf (t : Tree) (id : ContextId) (name : String) (n : Nat) : Except Error ContextId := do
  let start ← t.nthParent id n
  match (t.ancestors start).find? (fun c => t.binds c name) with
  | some owner => return owner
  | none => throw (.variableNotFound start name)

/-- The nearest context that binds a name, with what it binds it to. -/
def resolve (t : Tree) (id : ContextId) (name : String) (n : Nat) :
    Except Error (ContextId × Slot) := do
  let owner ← t.ownerOf id name n
  match t.localSlot? owner name with
  | some slot => return (owner, slot)
  | none => throw (.variableNotFound owner name)

/-- The nearest binding of a name. -/
def slot (t : Tree) (id : ContextId) (name : String) (n : Nat) : Except Error Slot := do
  let (_, slot) ← t.resolve id name n
  return slot

/-- The value of the nearest binding of a name. -/
def getVariable (t : Tree) (id : ContextId) (name : String) (n : Nat) : Except Error Value := do
  let (_, slot) ← t.resolve id name n
  return slot.value

/-! ### Listings -/

/-- The names that a context itself binds; none for a context that does not exist. -/
def localNames (t : Tree) (id : ContextId) : List String :=
  match t.context? id with
  | some c => c.bindings.keys
  | none => []

/-- The names that a context itself binds, in order. -/
def localVariables (t : Tree) (id : ContextId) : Except Error (List String) := do
  let c ← t.context id
  return c.bindings.keys

/-- The names that a look-up from a context can find, those of nearer contexts first. A name
occurs once for every context of the chain that binds it. -/
def variableList (t : Tree) (id : ContextId) : Except Error (List String) := do
  let _ ← t.context id
  return (t.ancestors id).flatMap t.localNames

end Tree

end Offside.Scope
