import Offside.Scope.Directory
import Offside.Scope.Lookup

/-!
# `Offside.Scope.Access`: who may see a variable

`canAccess` decides whether one context, the accessor, may see what another one, the owner,
binds under a given protection. `getVariableFrom` is the ordinary look-up on behalf of an
accessor: the nearest binding decides, and if it may not be seen the look-up fails, whatever
is bound further out.
-/

set_option autoImplicit false

namespace Offside.Scope.Tree

/-- Whether some context on the accessor's chain belongs to the accessor's own group. The
chain begins with the accessor itself. -/
def staysInGroup (t : Tree) (accessor : ContextId) : Bool :=
  (t.ancestors accessor).any (fun c => t.groupOf c == t.groupOf accessor)

/-- Whether the accessor's script lies in the directory of the owner's script. The global
context would see every directory, if it ran a script. -/
def sharesDirectory (t : Tree) (accessor owner : ContextId) : Bool :=
  match t.scriptOf accessor, t.scriptOf owner with
  | some inner, some outer =>
    accessor == .global || Directory.includes outer.directory inner.directory
  | _, _ => false

/-- Whether `accessor` may see what `owner` binds under `protection`. Without an owner there
is nothing to see, and without an accessor only what everyone may see is seen. -/
def canAccess (t : Tree) (accessor owner : Option ContextId) (protection : Protection) : Bool :=
  match owner, accessor with
  | none, _ => false
  | some _, none => protection == .everyone
  | some owner, some accessor =>
    match protection with
    | .everyone => true
    | .group => t.staysInGroup accessor
    | .directory => t.sharesDirectory accessor owner
    | .owner => accessor == owner

/-- The value of the nearest binding of a name, if the accessor may see it. -/
def getVariableFrom (t : Tree) (accessor : Option ContextId) (id : ContextId) (name : String)
    (n : Nat) : Except Error Value := do
  let (owner, slot) ← t.resolve id name n
  if t.canAccess accessor (some owner) slot.protection then return slot.value
  else throw (.accessDenied owner name slot.protection)

end Offside.Scope.Tree
