import Offside.Scope.Lookup

/-!
# `Offside.Scope.Mutation`: changing a tree in place

A `Mutation` reads a tree and writes to it, one step after another. A step that fails ends it,
and what was written before that stays written, so a mutation says what tree it leaves behind
whether or not it succeeds. Contexts, scripts and groups are kept in lists of their own, and what
touches two of them, such as adding a group or a script, writes to one and then to the other.

`Tree.addVariable`, `Tree.setVariable` and `Tree.removeVariable` are what becomes of a tree when a
mutation succeeds.
-/

set_option autoImplicit false

namespace Offside.Scope

/-- A change of a tree. The tree that it leaves behind is known even if it fails. -/
abbrev Mutation (α : Type) : Type := EStateM Error Tree α

namespace Mutation

/-! ### Steps -/

/-- What the tree tells. -/
def ask {α : Type} (f : Tree → Except Error α) : Mutation α := fun t =>
  match f t with
  | .ok a => .ok a t
  | .error e => .error e t

/-- Write to the tree. -/
def write (f : Tree → Tree) : Mutation Unit := fun t => .ok () (f t)

/-- Append a context and answer its handle. -/
def push (c : Context) : Mutation ContextId := fun t => .ok (t.push c).2 (t.push c).1

/-- Remove a name from a context and answer what it was bound to there. -/
def removeLocal (id : ContextId) (name : String) : Mutation (Option Slot) := fun t =>
  .ok (t.localSlot? id name) (t.unbind id name)

/-! ### Opening -/

/-- Open a scope below `parent`. -/
def createContext (parent : ContextId) : Mutation ContextId := do
  let _ ← ask (·.context parent)
  push { parent := some parent }

/-- Open the outermost scope of a script below `parent`. It belongs to the script's group. -/
def createScriptContext (parent : ContextId) (script : ScriptId) : Mutation ContextId := do
  let _ ← ask (·.context parent)
  let s ← ask (·.script script)
  push { parent := some parent, script := some script, group := s.group }

/-- Open a scope without a parent. -/
def createDetached : Mutation ContextId := push {}

/-- Add a group inside the group `parent`. Its scope lies below the scope of that group. -/
def addGroup (name : String) (parent : GroupId) : Mutation GroupId := do
  let g ← ask (·.group parent)
  let id : GroupId := ⟨(← get).groups.length⟩
  -- The scope comes first, so that the group can name it.
  let context ← push { parent := some g.context, group := some id }
  write (fun t => { t with groups := t.groups ++ [{ name, parent := some parent, context }] })
  return id

/-- Add a script, as a member of a group if one is given. -/
def addScript (name directory : String) (lines : List String) (group : Option GroupId) :
    Mutation ScriptId := do
  let id : ScriptId := ⟨(← get).scripts.length⟩
  -- The group gets its member before the script is there.
  if let some g := group then
    let _ ← ask (·.group g)
    write (·.enroll id g)
  write (fun t => { t with scripts := t.scripts ++ [{ name, directory, lines, group }] })
  return id

/-! ### Links -/

/-- Point a context at a new parent, or at none. The global context keeps having none. -/
def link (id : ContextId) (parent : Option ContextId) : Mutation Unit := do
  let _ ← ask (·.context id)
  if id ≠ .global then
    write (·.modify id (fun c => { c with parent }))

/-- Point a context at a new parent, or at none, without asking whether its chain still ends
at the global context. -/
def reparent (id : ContextId) (parent : Option ContextId) : Mutation Unit := do
  if let some p := parent then
    let _ ← ask (·.context p)
  link id parent

/-- Hang a context directly below the global one. -/
def orphan (id : ContextId) : Mutation Unit := reparent id (some .global)

/-! ### Bindings -/

/-- Bind a name in a context. A name that is bound there already keeps its binding, and the
answer says whether it was free. -/
def addVariable (id : ContextId) (name : String) (protection : Protection) (value : Value) :
    Mutation Bool := do
  let c ← ask (·.context id)
  if c.bindings.contains name then return false
  write (·.bind id name { protection, value })
  return true

/-- Give the nearest binding of a name another value. It keeps its protection. -/
def setVariable (id : ContextId) (name : String) (value : Value) (n : Nat) : Mutation Unit := do
  let owner ← ask (·.ownerOf id name n)
  if let some slot := (← get).localSlot? owner name then
    write (·.bind owner name { slot with value })

/-- Remove the nearest binding of a name and answer what it was. -/
def removeVariable (id : ContextId) (name : String) (n : Nat) : Mutation Slot := do
  let owner ← ask (·.ownerOf id name n)
  match ← removeLocal owner name with
  | some slot => return slot
  | none => throw (.variableNotFound owner name)

/-- Remove some names from a context, which must exist. -/
def removeNames (id : ContextId) (names : List String) : Mutation Unit := do
  let _ ← ask (·.context id)
  names.forM (fun name => discard (removeLocal id name))

/-! ### Results -/

/-- The tree behind a mutation that succeeds, with its answer, or why it fails. -/
def result {α : Type} (x : Mutation α) (t : Tree) : Except Error (Tree × α) :=
  match x t with
  | .ok a t => .ok (t, a)
  | .error e _ => .error e

end Mutation

namespace Tree

/-- The tree behind a binding of a name, and whether the name was free. -/
def addVariable (t : Tree) (id : ContextId) (name : String) (protection : Protection)
    (value : Value) : Except Error (Tree × Bool) :=
  (Mutation.addVariable id name protection value).result t

/-- The tree where the nearest binding of a name has another value. -/
def setVariable (t : Tree) (id : ContextId) (name : String) (value : Value) (n : Nat) :
    Except Error Tree :=
  ((Mutation.setVariable id name value n).result t).map Prod.fst

/-- The tree without the nearest binding of a name, and that binding. -/
def removeVariable (t : Tree) (id : ContextId) (name : String) (n : Nat) :
    Except Error (Tree × Slot) :=
  (Mutation.removeVariable id name n).result t

end Tree

end Offside.Scope
