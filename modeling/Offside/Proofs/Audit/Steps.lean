import Offside.Proofs.Audit.Healing

/-!
# `Offside.Proofs.Audit.Steps`: all that one operation can do

`Does` lists what can come of an operation: it fails, it changes the tree, or it is part of the
audit and has one of the few effects that verifying and repairing have. `Operation.does` says that
nothing else ever comes of an operation on a well-formed world, so that a fact about every
operation is proved by the cases of `Does`.

Repairs make changes, as edits do, so the tree behind every operation is made out of the one before
by changes (`Does.changes`).
-/

set_option autoImplicit false

namespace Offside.Scope.Tree

variable {t t' : Tree} {id : ContextId}

/-! ### Repairs as changes -/

theorem changes_hang (hroot : t.Has .global) (hid : t.Has id) : t.Changes (t.hang id) :=
  Mutation.reparent_change (orphan_eq_ok hroot hid)

theorem changes_unbindAll (hid : t.Has id) (names : List String) :
    t.Changes (t.unbindAll id names) := by
  induction names generalizing t with
  | nil => exact .refl
  | cons name names ih => exact .head (.unbind hid) (ih (has_modify.2 hid))

end Offside.Scope.Tree

namespace Offside.Audit

open Offside.Scope Effect

theorem changes_hung {t : Tree} {id : ContextId} {r : Report} (hroot : t.Has .global)
    (hr : r.Fits t id) : t.Changes (r.hung id t) := by
  have hended : t.Changes (r.finalParent.elim t t.hang) := by
    cases hlast : r.finalParent with
    | none => exact .refl
    | some last => exact Tree.changes_hang hroot (hr.finalParent last hlast)
  rw [Report.hung]
  split
  · exact hended.trans (Tree.changes_hang (hended.has hroot) (hended.has hr.about))
  · exact hended

/-- Mending a report makes changes. -/
theorem changes_amend {t : Tree} {id : ContextId} {r : Report} (ht : t.WellFormed)
    (hr : r.Fits t id) : t.Changes (r.amend id t) := by
  have hhung := changes_hung ht.root hr
  rw [amend_eq_unbindAll]
  exact hhung.trans (Tree.changes_unbindAll (hhung.has hr.about) _)

theorem World.WellFormed.changes_settle {w : World} (hw : w.WellFormed) (id : ContextId) :
    w.tree.Changes (w.settle id).tree := by
  cases hlog : w.log.find? id with
  | none => rw [settle_of_not_logged hlog]
  | some r =>
    rw [settle_of_logged hlog]
    exact changes_amend hw.tree (hw.logged id r hlog)

theorem World.WellFormed.changes_foldl_settle {w : World} (hw : w.WellFormed)
    (ids : List ContextId) : w.tree.Changes (ids.foldl World.settle w).tree := by
  induction ids generalizing w with
  | nil => exact .refl
  | cons id ids ih => exact (hw.changes_settle id).trans (ih (hw.settle id))

/-! ### All operations -/

/-- What can come of an operation on a world: its answer and the world behind it. -/
inductive Does (w : World) : Operation → Except Scope.Error Outcome → World → Prop
  /-- It fails, and the world is as it was. -/
  | failed {op : Operation} {e : Scope.Error} : Does w op (.error e) w
  /-- It changes the tree and leaves the log alone. -/
  | edited {op : Operation} {a : Outcome} {t : Tree} :
      op.isAudit = false → Edit w.tree a t → Does w op (.ok a) { w with tree := t }
  /-- A verification finds nothing wrong. -/
  | passed {id : ContextId} {r : Report} :
      inspect w.tree id = .ok r → r.isValid = true → Does w (.verify id) (.ok (.flag true)) w
  /-- A verification logs what it finds. -/
  | logged {id : ContextId} {r : Report} :
      inspect w.tree id = .ok r → r.isValid = false →
      Does w (.verify id) (.ok (.flag false)) { w with log := w.log.insert id r }
  /-- A repair finds nothing to do. -/
  | spared {id : ContextId} {r : Report} :
      w.log.find? id = none → inspect w.tree id = .ok r → r.isValid = true →
      Does w (.repair id) (.ok (.flag false)) w
  /-- A repair mends what is logged, or else what an inspection finds. -/
  | repaired {id : ContextId} {r : Report} :
      w.log.find? id = some r ∨
        w.log.find? id = none ∧ inspect w.tree id = .ok r ∧ r.isValid = false →
      r.Fits w.tree id →
      Does w (.repair id) (.ok (.flag true)) { tree := r.amend id w.tree, log := w.log.erase id }
  /-- All that is logged is mended. -/
  | cleared :
      Does w .repairAll (.ok (.count w.log.keys.length)) (w.log.keys.foldl World.settle w)

section

variable {w : World} {op : Operation} {α : Type}

theorem map_eq_of_ok {x : Effect α} {g : α → Outcome} {a : α} {w' : World} (h : x w = .ok a w') :
    (g <$> x) w = .ok (g a) w' := by
  show EStateM.map g x w = _
  rw [EStateM.map, h]

theorem map_eq_of_error {x : Effect α} {g : α → Outcome} {e : Scope.Error} {w' : World}
    (h : x w = .error e w') : (g <$> x) w = .error e w' := by
  show EStateM.map g x w = _
  rw [EStateM.map, h]

theorem apply_eq_of_ok {a : Outcome} {w' : World} (h : op.run w = .ok a w') :
    op.apply w = (.ok a, w') := by
  rw [Operation.apply, h]

theorem apply_eq_of_error {e : Scope.Error} {w' : World} (h : op.run w = .error e w') :
    op.apply w = (.error e, w') := by
  rw [Operation.apply, h]

/-- An operation that mutates the tree changes nothing else, and nothing at all if it fails. -/
theorem apply_mutate_cases {x : Mutation α} {g : α → Outcome} (hrun : op.run = g <$> mutate x)
    (hatomic : x.Atomic) (w : World) :
    (∃ t a, x w.tree = .ok a t ∧ op.apply w = (.ok (g a), { w with tree := t })) ∨
      ∃ e, op.apply w = (.error e, w) := by
  cases hresult : x w.tree with
  | ok a t =>
    exact .inl ⟨t, a, rfl, apply_eq_of_ok (hrun ▸ map_eq_of_ok (mutate_eq_of_ok hresult))⟩
  | error e t =>
    have hmutate := mutate_eq_of_error hatomic hresult
    exact .inr ⟨e, apply_eq_of_error (hrun ▸ map_eq_of_error hmutate)⟩

/-- What an operation does that edits the tree. -/
theorem does_of_mutate {x : Mutation α} {g : α → Outcome} (haudit : op.isAudit = false)
    (hrun : op.run = g <$> mutate x) (hatomic : x.Atomic)
    (hx : ∀ t a, x w.tree = .ok a t → Edit w.tree (g a) t) :
    Does w op (op.apply w).1 (op.apply w).2 := by
  obtain ⟨t, a, hresult, h⟩ | ⟨e, h⟩ := apply_mutate_cases hrun hatomic w
  · rw [h]
    exact .edited haudit (hx t a hresult)
  · rw [h]
    exact .failed

theorem does_verify (hw : w.WellFormed) (id : ContextId) :
    Does w (.verify id) ((Operation.verify id).apply w).1 ((Operation.verify id).apply w).2 := by
  obtain ⟨r, hr, hvalid, h⟩ | ⟨r, hr, hinvalid, -, h⟩ | ⟨-, h⟩ := verify_cases hw id
  · rw [apply_eq_of_ok (map_eq_of_ok h)]
    exact .passed hr hvalid
  · rw [apply_eq_of_ok (map_eq_of_ok h)]
    exact .logged hr hinvalid
  · rw [apply_eq_of_error (map_eq_of_error h)]
    exact .failed

theorem does_repair (hw : w.WellFormed) (id : ContextId) :
    Does w (.repair id) ((Operation.repair id).apply w).1 ((Operation.repair id).apply w).2 := by
  obtain ⟨r, hlog, hr, hvalid, h⟩ | ⟨r, hr, hfits, h⟩ | ⟨-, -, h⟩ := repair_cases hw id
  · rw [apply_eq_of_ok (map_eq_of_ok h)]
    exact .spared hlog hr hvalid
  · rw [apply_eq_of_ok (map_eq_of_ok h)]
    exact .repaired hr hfits
  · rw [apply_eq_of_error (map_eq_of_error h)]
    exact .failed

theorem does_repairAll (hw : w.WellFormed) :
    Does w .repairAll (Operation.repairAll.apply w).1 (Operation.repairAll.apply w).2 := by
  rw [apply_eq_of_ok (map_eq_of_ok (repairAll_eq_settle hw))]
  exact .cleared

/-- Nothing else ever comes of an operation. -/
theorem Operation.does (hw : w.WellFormed) (op : Operation) :
    Does w op (op.apply w).1 (op.apply w).2 := by
  cases op.kind with
  | edit haudit hrun hatomic hx => exact does_of_mutate haudit hrun hatomic (hx w.tree)
  | verify id => exact does_verify hw id
  | repair id => exact does_repair hw id
  | repairAll => exact does_repairAll hw

end

/-- Every operation makes changes, or none. -/
theorem Does.changes {w w' : World} {op : Operation} {a : Except Scope.Error Outcome}
    (hw : w.WellFormed) (h : Does w op a w') : w.tree.Changes w'.tree := by
  cases h with
  | failed => exact .refl
  | edited _ hedit => exact hedit.changes
  | passed _ _ => exact .refl
  | logged _ _ => exact .refl
  | spared _ _ _ => exact .refl
  | repaired _ hfits => exact changes_amend hw.tree hfits
  | cleared => exact hw.changes_foldl_settle _

/-- One operation after another makes changes. -/
theorem World.WellFormed.changes_after {w : World} (hw : w.WellFormed) (ops : List Operation) :
    w.tree.Changes (w.after ops).tree := by
  induction ops generalizing w with
  | nil => exact .refl
  | cons op ops ih => exact ((op.does hw).changes hw).trans (ih (hw.after [op]))

end Offside.Audit
