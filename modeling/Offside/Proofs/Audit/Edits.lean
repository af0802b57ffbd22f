import Offside.Audit.Operation
import Offside.Proofs.Scope.Change

/-!
# `Offside.Proofs.Audit.Edits`: operations on the tree

All operations but those that verify and repair are mutations of the tree. When one of them
succeeds, what it does to the tree is an `Edit`: it makes changes, it numbers what it creates by
counting what was there, and what answers no handle creates nothing. When one of them fails, the
tree is what it was, since all of these mutations are atomic.

`Operation.kind` is the one place where the operations are gone through. What is true of every edit
is true of all of them but three.
-/

set_option autoImplicit false

namespace Offside.Scope.Tree

/-! ### Counting -/

/-- How many contexts, scripts and groups there are. -/
def counts (t : Tree) : Nat × Nat × Nat :=
  (t.contexts.length, t.scripts.length, t.groups.length)

@[simp] theorem counts_modify (t : Tree) (id : ContextId) (f : Context → Context) :
    (t.modify id f).counts = t.counts := by
  simp [counts, modify]

end Offside.Scope.Tree

namespace Offside.Scope.Mutation

variable {t t' : Tree} {id : ContextId} {name : String} {n : Nat}

theorem counts_of_reparent {parent : Option ContextId} (h : reparent id parent t = .ok () t') :
    t'.counts = t.counts := by
  obtain ⟨-, -, rfl⟩ := reparent_eq_ok_iff.1 h
  split
  · rfl
  · exact Tree.counts_modify _ _ _

theorem counts_of_addVariable {protection : Protection} {value : Value} {added : Bool}
    (h : addVariable id name protection value t = .ok added t') : t'.counts = t.counts := by
  obtain ⟨-, hpair⟩ := addVariable_eq_ok_iff.1 h
  split at hpair
  · cases hpair
    rfl
  · cases hpair
    exact Tree.counts_modify _ _ _

theorem counts_of_setVariable {value : Value} (h : setVariable id name value n t = .ok () t') :
    t'.counts = t.counts := by
  obtain ⟨owner, slot, -, -, rfl⟩ := setVariable_eq_ok_iff.1 h
  exact Tree.counts_modify _ _ _

theorem counts_of_removeVariable {slot : Slot} (h : removeVariable id name n t = .ok slot t') :
    t'.counts = t.counts := by
  obtain ⟨owner, -, -, rfl⟩ := removeVariable_eq_ok_iff.1 h
  exact Tree.counts_modify _ _ _

end Offside.Scope.Mutation

namespace Offside.Audit

open Offside.Scope Effect

/-! ### Operations on the tree -/

/-- An operation that verifies or repairs. All others are about the tree alone. -/
def Operation.isAudit : Operation → Bool
  | verify _ | repair _ | repairAll => true
  | _ => false

/-- An answer that is the handle of something new. -/
def Outcome.isHandle : Outcome → Bool
  | context _ | group _ | script _ => true
  | _ => false

/-- If the answer is a handle, its number is how many things of that sort the tree has. -/
def Outcome.Numbered (t : Tree) : Outcome → Prop
  | context id => id.index = t.contexts.length
  | group id => id.index = t.groups.length
  | script id => id.index = t.scripts.length
  | _ => True

/-- What a successful operation on a tree does to it. -/
structure Edit (t : Tree) (a : Outcome) (t' : Tree) : Prop where
  /-- It makes changes. -/
  changes : t.Changes t'
  /-- It gives what it creates the next number. -/
  numbered : a.Numbered t
  /-- It creates nothing that it does not answer. -/
  counts : a.isHandle = false → t'.counts = t.counts

namespace Edit

variable {t t' : Tree}

/-- An edit that creates something. -/
theorem of_handle {a : Outcome} (h : t.Change t') (hnumbered : a.Numbered t)
    (ha : a.isHandle = true) : Edit t a t' where
  changes := .single h
  numbered := hnumbered
  counts hno := by
    rw [ha] at hno
    cases hno

theorem createContext {parent id : ContextId}
    (h : Mutation.createContext parent t = .ok id t') : Edit t (.context id) t' := by
  refine .of_handle (Mutation.createContext_change h) ?_ rfl
  obtain ⟨-, hpush⟩ := Mutation.createContext_eq_ok_iff.1 h
  cases hpush
  rfl

theorem createScriptContext {parent id : ContextId} {script : ScriptId}
    (h : Mutation.createScriptContext parent script t = .ok id t') : Edit t (.context id) t' := by
  refine .of_handle (Mutation.createScriptContext_change h) ?_ rfl
  obtain ⟨-, s, -, hpush⟩ := Mutation.createScriptContext_eq_ok_iff.1 h
  cases hpush
  rfl

theorem createDetached {id : ContextId} (h : Mutation.createDetached t = .ok id t') :
    Edit t (.context id) t' := by
  refine .of_handle (Mutation.createDetached_change h) ?_ rfl
  cases Mutation.createDetached_eq_ok_iff.1 h
  rfl

theorem addGroup {name : String} {parent id : GroupId}
    (h : Mutation.addGroup name parent t = .ok id t') : Edit t (.group id) t' := by
  refine .of_handle (Mutation.addGroup_change h) ?_ rfl
  obtain ⟨g, -, rfl, -⟩ := Mutation.addGroup_eq_ok_iff.1 h
  rfl

theorem addScript {name directory : String} {lines : List String} {group : Option GroupId}
    {id : ScriptId} (h : Mutation.addScript name directory lines group t = .ok id t') :
    Edit t (.script id) t' := by
  refine .of_handle (Mutation.addScript_change h) ?_ rfl
  obtain ⟨-, rfl, -⟩ := Mutation.addScript_eq_ok_iff.1 h
  rfl

/-- An edit that creates nothing. -/
theorem of_changes {a : Outcome} (h : t.Changes t') (hcounts : t'.counts = t.counts)
    (hnumbered : a.Numbered t) : Edit t a t' where
  changes := h
  numbered := hnumbered
  counts _ := hcounts

end Edit

/-! ### Kinds of operations -/

/-- What an operation carries out. -/
inductive Operation.Kind : Operation → Prop
  /-- An edit of the tree, made by a mutation that changes nothing if it fails. -/
  | edit {op : Operation} {α : Type} {x : Mutation α} {g : α → Outcome} :
      op.isAudit = false → op.run = g <$> mutate x → x.Atomic →
      (∀ t t' a, x t = .ok a t' → Edit t (g a) t') → Operation.Kind op
  /-- A verification. -/
  | verify (id : ContextId) : Operation.Kind (.verify id)
  /-- A repair. -/
  | repair (id : ContextId) : Operation.Kind (.repair id)
  /-- The repair of all that is logged. -/
  | repairAll : Operation.Kind .repairAll

/-- An operation edits the tree, or it verifies or repairs. -/
theorem Operation.kind (op : Operation) : op.Kind := by
  cases op with
  | createContext parent =>
    exact .edit rfl rfl (Mutation.atomic_createContext parent) fun _ _ _ h => .createContext h
  | createScriptContext parent script =>
    exact .edit rfl rfl (Mutation.atomic_createScriptContext parent script) fun _ _ _ h =>
      .createScriptContext h
  | createDetached =>
    exact .edit rfl rfl Mutation.atomic_createDetached fun _ _ _ h => .createDetached h
  | addGroup name parent =>
    exact .edit rfl rfl (Mutation.atomic_addGroup name parent) fun _ _ _ h => .addGroup h
  | addScript name directory lines group =>
    exact .edit rfl rfl (Mutation.atomic_addScript name directory lines group) fun _ _ _ h =>
      .addScript h
  | reparent id parent =>
    exact .edit rfl rfl (Mutation.atomic_reparent id parent) fun _ _ _ h =>
      .of_changes (Mutation.reparent_change h) (Mutation.counts_of_reparent h) trivial
  | orphan id =>
    exact .edit rfl rfl (Mutation.atomic_orphan id) fun _ _ _ h =>
      .of_changes (Mutation.reparent_change h) (Mutation.counts_of_reparent h) trivial
  | addVariable id name protection value =>
    exact .edit rfl rfl (Mutation.atomic_addVariable id name protection value) fun _ _ _ h =>
      .of_changes (Mutation.addVariable_change h) (Mutation.counts_of_addVariable h) trivial
  | setVariable id name value n =>
    exact .edit rfl rfl (Mutation.atomic_setVariable id name value n) fun _ _ _ h =>
      .of_changes (.single (Mutation.setVariable_change h)) (Mutation.counts_of_setVariable h)
        trivial
  | removeVariable id name n =>
    exact .edit rfl rfl (Mutation.atomic_removeVariable id name n) fun _ _ _ h =>
      .of_changes (.single (Mutation.removeVariable_change h))
        (Mutation.counts_of_removeVariable h) trivial
  | verify id => exact .verify id
  | repair id => exact .repair id
  | repairAll => exact .repairAll

end Offside.Audit
