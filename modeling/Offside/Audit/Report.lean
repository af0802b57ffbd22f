import Offside.Scope.Lookup

/-!
# `Offside.Audit.Report`: what is wrong with a context

A sound context binds no empty name and no null value, and its chain ends at the global
context. `inspect` checks one context against this and reports everything it finds. The
chain is followed until it ends or comes back to a context already passed.
-/

set_option autoImplicit false

namespace Offside.Audit

open Offside.Scope

/-- What an inspection finds out about one context. -/
structure Report where
  /-- The chain comes back to itself. -/
  circular : Bool
  /-- The empty name is bound. -/
  emptyName : Bool
  /-- The names that are bound to null, in order. -/
  nullNames : List String
  /-- Where the chain ends, unless it is circular. -/
  finalParent : Option ContextId
deriving DecidableEq, Repr

namespace Report

/-- Some name is bound to null. -/
def hasNull (r : Report) : Bool := !r.nullNames.isEmpty

/-- The chain ends, but not at the global context. -/
def endsElsewhere (r : Report) : Bool := r.finalParent.any (· ≠ .global)

/-- Nothing is wrong. -/
def isValid (r : Report) : Bool :=
  !(r.circular || r.emptyName || r.hasNull || r.endsElsewhere)

end Report

/-- A list up to the first member that is in `seen` or occurred before. -/
def untilRepeat {α : Type} [DecidableEq α] (seen : List α) : List α → List α
  | [] => []
  | a :: rest => if a ∈ seen then [] else a :: untilRepeat (a :: seen) rest

/-- The different contexts on a chain, in order. -/
def passed (t : Tree) (id : ContextId) : List ContextId := untilRepeat [] (t.ancestors id)

/-- What is wrong with a context. -/
def inspect (t : Tree) (id : ContextId) : Except Scope.Error Report := do
  let c ← t.context id
  let passed := passed t id
  let last := passed.getLast?.getD id
  -- The chain stopped at `last` for want of a parent, or because the parent was passed before.
  let circular := (t.parentOf last).any (fun p => passed.contains p)
  let nulls := c.bindings.entries.filter (fun e => e.2.value.isNull)
  return {
    circular
    emptyName := c.bindings.contains ""
    nullNames := nulls.map Prod.fst
    finalParent := if circular then none else some last }

end Offside.Audit
