import Offside.Audit.Report
import Offside.Scope.Access
import Offside.Scope.Mutation

/-!
# `Offside.Audit.World`: a tree under audit

A `World` is a tree together with a log of failed verifications. `verify` inspects a context
and logs a failure; passing does not clear what was logged before. `repair` mends what the
log says about a context, or, if it says nothing, what an inspection finds now, and clears
the entry: the end of the chain and a circular chain are re-pointed at the global context,
the empty name and null bindings are removed. `repairAll` does so for every entry.

All of them are effects: they may fail, and whether or not they fail, they say what world
they leave behind. A mutation of the tree is one of their steps, and what it has written before
it fails stays written here too (`Effect.mutate`).
-/

set_option autoImplicit false

namespace Offside.Audit

open Offside.Scope

/-- A tree and what verification found wrong with it. -/
structure World where
  /-- The contexts, scripts and groups. -/
  tree : Tree := .new
  /-- The failures that have not been repaired, by context. -/
  log : Register ContextId Report := {}
deriving DecidableEq, Repr

/-- An effect on a world. The world it leaves behind is known even if it fails. -/
abbrev Effect (α : Type) : Type := EStateM Scope.Error World α

namespace Effect

/-- What the tree of the world tells. -/
def ask {α : Type} (f : Tree → Except Scope.Error α) : Effect α := fun w =>
  match f w.tree with
  | .ok a => .ok a w
  | .error e => .error e w

/-- A mutation of the tree of the world. -/
def mutate {α : Type} (x : Mutation α) : Effect α := fun w =>
  match x w.tree with
  | .ok a t => .ok a { w with tree := t }
  | .error e t => .error e { w with tree := t }

/-- What the log says about a context. -/
def logged? (id : ContextId) : Effect (Option Report) := fun w => .ok (w.log.find? id) w

/-- Log a report, in place of an earlier one about the same context. -/
def record (id : ContextId) (r : Report) : Effect Unit := fun w =>
  .ok () { w with log := w.log.insert id r }

/-- Clear what the log says about a context. -/
def clear (id : ContextId) : Effect Unit := fun w =>
  .ok () { w with log := w.log.erase id }

end Effect

open Effect

/-- Whether a context is sound. A failure is logged. -/
def verify (id : ContextId) : Effect Bool := do
  let r ← ask (inspect · id)
  if r.isValid then return true
  record id r
  return false

/-- The names that a report asks to remove. -/
def Report.badNames (r : Report) : List String :=
  (if r.emptyName then [""] else []) ++ r.nullNames

/-- Mend what a report says about a context. -/
def mend (id : ContextId) (r : Report) : Effect Unit := do
  -- A report knows the end of the chain only where the chain is not circular.
  if let some last := r.finalParent then
    if r.endsElsewhere then mutate (.orphan last)
  if r.circular then mutate (.orphan id)
  mutate (.removeNames id r.badNames)

/-- Repair a context after what the log says about it, or else after a new inspection. The
answer is whether there was anything to repair. -/
def repair (id : ContextId) : Effect Bool := do
  -- Without a report, a new verification logs one unless the context is sound.
  if (← logged? id).isNone then
    if ← verify id then return false
  match ← logged? id with
  | none => return false
  | some r =>
    clear id
    mend id r
    return true

/-- Repair some contexts in turn and count those that needed it. -/
def repairEach : List ContextId → Effect Nat
  | [] => return 0
  | id :: ids => do
    let done ← repair id
    let n ← repairEach ids
    return if done then n + 1 else n

/-- Repair every context with an entry in the log. -/
def repairAll : Effect Nat := do
  let w ← get
  repairEach w.log.keys

end Offside.Audit
