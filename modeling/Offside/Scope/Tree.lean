import Offside.Register
import Offside.Scope.Error
import Offside.Value

/-!
# `Offside.Scope.Tree`: contexts, scripts and groups

A running program has a context for every open script, block and function. Each context
points at the context it was opened from and binds names to values; a script context carries
its script and that script's group, and every group has a context of its own. A `Tree` holds
all of them under their numbers.

Nothing is ever removed from a tree, so a handle once given stays good. A parent link may be
re-pointed at any context, which can close a cycle or leave a chain that does not end at the
global context; finding and mending that is the business of `Offside.Audit`. The global
context alone never gets a parent.
-/

set_option autoImplicit false

namespace Offside.Scope

/-- A bound value and how far it can be seen. -/
structure Slot where
  /-- How far the variable can be seen. -/
  protection : Protection
  /-- What it holds. -/
  value : Value
deriving DecidableEq, Repr

/-- One scope. -/
structure Context where
  /-- The context it was opened from. -/
  parent : Option ContextId := none
  /-- The script it runs. -/
  script : Option ScriptId := none
  /-- The group it belongs to. -/
  group : Option GroupId := none
  /-- What it binds itself. -/
  bindings : Register String Slot := {}
deriving DecidableEq, Repr

/-- A loaded script. -/
structure Script where
  /-- Its name. -/
  name : String
  /-- The directory it was loaded from. -/
  directory : String
  /-- The lines of its source. -/
  lines : List String
  /-- The group it belongs to. -/
  group : Option GroupId
deriving DecidableEq, Repr

/-- The source line with the given number, counted from one. -/
def Script.line? (s : Script) (number : Nat) : Option String :=
  match number with
  | 0 => none
  | n + 1 => s.lines[n]?

/-- A named collection of scripts with a scope of its own. -/
structure Group where
  /-- Its name. -/
  name : String
  /-- The group it lies in. -/
  parent : Option GroupId
  /-- Its scope. -/
  context : ContextId
  /-- Its scripts, in the order in which they were added. -/
  members : List ScriptId := []
deriving DecidableEq, Repr

/-- Whether a script is a member of a group. -/
def Group.hasScript (g : Group) (script : ScriptId) : Bool := g.members.contains script

/-- Whether one of some scripts is a member. -/
def Group.hasAnyScript (g : Group) (scripts : List ScriptId) : Bool := scripts.any g.hasScript

/-- Whether all of some scripts are members. -/
def Group.hasAllScripts (g : Group) (scripts : List ScriptId) : Bool := scripts.all g.hasScript

/-- Everything a running program has opened. -/
structure Tree where
  /-- The contexts by number. -/
  contexts : List Context
  /-- The scripts by number. -/
  scripts : List Script
  /-- The groups by number. -/
  groups : List Group
deriving DecidableEq, Repr

namespace Tree

/-- The tree with the global context and its group. -/
def new : Tree where
  contexts := [{ group := some .global }]
  scripts := []
  groups := [{ name := "Global", parent := none, context := .global }]

/-! ### Looking things up by handle -/

/-- The context with the given number. -/
def context? (t : Tree) (id : ContextId) : Option Context := t.contexts[id.index]?

/-- The script with the given number. -/
def script? (t : Tree) (id : ScriptId) : Option Script := t.scripts[id.index]?

/-- The group with the given number. -/
def group? (t : Tree) (id : GroupId) : Option Group := t.groups[id.index]?

/-- The context with the given number, which must exist. -/
def context (t : Tree) (id : ContextId) : Except Error Context :=
  match t.context? id with
  | some c => .ok c
  | none => .error (.unknownContext id)

/-- The script with the given number, which must exist. -/
def script (t : Tree) (id : ScriptId) : Except Error Script :=
  match t.script? id with
  | some s => .ok s
  | none => .error (.unknownScript id)

/-- The group with the given number, which must exist. -/
def group (t : Tree) (id : GroupId) : Except Error Group :=
  match t.group? id with
  | some g => .ok g
  | none => .error (.unknownGroup id)

/-- The handles of all contexts. -/
def contextIds (t : Tree) : List ContextId := (List.range t.contexts.length).map ContextId.mk

/-- The parent of a context; a context that does not exist has none. -/
def parentOf (t : Tree) (id : ContextId) : Option ContextId := (t.context? id).bind (·.parent)

/-- The script that a context runs. -/
def scriptOf (t : Tree) (id : ContextId) : Option Script :=
  ((t.context? id).bind (·.script)).bind t.script?

/-- The group that a context belongs to. -/
def groupOf (t : Tree) (id : ContextId) : Option GroupId := (t.context? id).bind (·.group)

/-! ### Adding -/

/-- The tree with one more context, and the handle of that context. -/
def push (t : Tree) (c : Context) : Tree × ContextId :=
  ({ t with contexts := t.contexts ++ [c] }, ⟨t.contexts.length⟩)

/-- The tree whose script of the given number is a member of the given group. -/
def enroll (t : Tree) (script : ScriptId) (group : GroupId) : Tree :=
  let join (g : Group) : Group := { g with members := g.members ++ [script] }
  { t with groups := t.groups.modify group.index join }

/-! ### Changing a context -/

/-- The tree with one context changed. -/
def modify (t : Tree) (id : ContextId) (f : Context → Context) : Tree :=
  { t with contexts := t.contexts.modify id.index f }

/-- The tree where a context binds a name to a slot. -/
def bind (t : Tree) (id : ContextId) (name : String) (slot : Slot) : Tree :=
  t.modify id (fun c => { c with bindings := c.bindings.insert name slot })

/-- The tree where a context does not bind a name. -/
def unbind (t : Tree) (id : ContextId) (name : String) : Tree :=
  t.modify id (fun c => { c with bindings := c.bindings.erase name })

end Tree

end Offside.Scope
