import Offside.Audit.World

/-!
# `Offside.Audit.Operation`: everything that can be done to a world

An `Operation` is one change that a running program or an audit can ask for, with its
arguments, and `run` carries it out. Since operations are data, a history is a list of
them: `after` is the world that a history leads to from the new one, failed operations
included, and a world is `Reachable` if some history leads to it.
-/

set_option autoImplicit false

namespace Offside.Audit

open Offside.Scope

/-- One change of a world. -/
inductive Operation where
  /-- Open a scope below another. -/
  | createContext (parent : ContextId)
  /-- Open the outermost scope of a script. -/
  | createScriptContext (parent : ContextId) (script : ScriptId)
  /-- Open a scope without a parent. -/
  | createDetached
  /-- Add a group inside another. -/
  | addGroup (name : String) (parent : GroupId)
  /-- Add a script. -/
  | addScript (name directory : String) (lines : List String) (group : Option GroupId)
  /-- Point a context at a new parent. -/
  | reparent (id : ContextId) (parent : Option ContextId)
  /-- Hang a context below the global one. -/
  | orphan (id : ContextId)
  /-- Bind a name. -/
  | addVariable (id : ContextId) (name : String) (protection : Protection) (value : Value)
  /-- Give the nearest binding another value. -/
  | setVariable (id : ContextId) (name : String) (value : Value) (n : Nat)
  /-- Remove the nearest binding. -/
  | removeVariable (id : ContextId) (name : String) (n : Nat)
  /-- Inspect a context and log a failure. -/
  | verify (id : ContextId)
  /-- Repair a context. -/
  | repair (id : ContextId)
  /-- Repair every context in the log. -/
  | repairAll
deriving DecidableEq, Repr

/-- What a successful operation answers. -/
inductive Outcome where
  /-- The handle of a new context. -/
  | context (id : ContextId)
  /-- The handle of a new group. -/
  | group (id : GroupId)
  /-- The handle of a new script. -/
  | script (id : ScriptId)
  /-- Yes or no. -/
  | flag (b : Bool)
  /-- The binding that was removed. -/
  | slot (s : Slot)
  /-- How many were repaired. -/
  | count (n : Nat)
  /-- Nothing to tell. -/
  | done
deriving DecidableEq, Repr

namespace Operation

open Effect

/-- Carry out an operation. -/
def run : Operation → Effect Outcome
  | createContext parent => Outcome.context <$> mutate (.createContext parent)
  | createScriptContext parent script =>
    Outcome.context <$> mutate (.createScriptContext parent script)
  | createDetached => Outcome.context <$> mutate .createDetached
  | addGroup name parent => Outcome.group <$> mutate (.addGroup name parent)
  | addScript name directory lines group =>
    Outcome.script <$> mutate (.addScript name directory lines group)
  | reparent id parent => (fun _ => Outcome.done) <$> mutate (.reparent id parent)
  | orphan id => (fun _ => Outcome.done) <$> mutate (.orphan id)
  | addVariable id name protection value =>
    Outcome.flag <$> mutate (.addVariable id name protection value)
  | setVariable id name value n =>
    (fun _ => Outcome.done) <$> mutate (.setVariable id name value n)
  | removeVariable id name n => Outcome.slot <$> mutate (.removeVariable id name n)
  | verify id => Outcome.flag <$> Audit.verify id
  | repair id => Outcome.flag <$> Audit.repair id
  | repairAll => Outcome.count <$> Audit.repairAll

/-- The answer of an operation, and the world behind it. -/
def apply (op : Operation) (w : World) : Except Scope.Error Outcome × World :=
  match op.run w with
  | .ok a w => (.ok a, w)
  | .error e w => (.error e, w)

end Operation

/-- The world behind a row of operations. One that fails does not stop the others. -/
def World.after (w : World) (ops : List Operation) : World :=
  ops.foldl (fun w op => (op.apply w).2) w

/-- The worlds that some row of operations makes out of the new one. -/
def World.Reachable (w : World) : Prop := ∃ ops, w = World.after {} ops

end Offside.Audit
