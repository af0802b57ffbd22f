import Mathlib.Data.List.Induction
import Offside.Proofs.Audit.Steps

/-!
# `Offside.Proofs.Audit.History`: what the log remembers

A run is a list of moments (`moments`): each is an operation together with the world it finds.
`Since` says that something happened at some moment of a run and that something else has held at
every later one, and `since_concat` how that goes on with the next moment.

The log remembers the last failure that has not been repaired. A failed verification puts an entry
in, a successful repair takes it out, and nothing else makes a difference
(`find?_behind_eq_some_iff`): not a verification that passes, not a change of the tree, not the
verification that a repair makes on its own account, and nothing that fails. `log_remembers` says
so of every run.
-/

set_option autoImplicit false

namespace Offside.Audit

open Offside.Scope

/-! ### Moments -/

/-- An operation of a run, with the world it finds. -/
structure Moment where
  /-- The world before the operation. -/
  world : World
  /-- The operation. -/
  op : Operation
deriving DecidableEq, Repr

namespace Moment

/-- What the operation answers. -/
def answer (m : Moment) : Except Scope.Error Outcome := (m.op.apply m.world).1

/-- The world behind the operation. -/
def behind (m : Moment) : World := (m.op.apply m.world).2

/-- The context is verified and does not pass. -/
def Fails (m : Moment) (id : ContextId) : Prop :=
  m.op = .verify id ∧ m.answer = .ok (.flag false)

/-- The context, or all that is logged, is repaired with success. -/
def Repairs (m : Moment) (id : ContextId) : Prop :=
  (m.op = .repair id ∨ m.op = .repairAll) ∧ ∃ a, m.answer = .ok a

end Moment

/-- The moments of a run, in order. -/
def moments (w : World) : List Operation → List Moment
  | [] => []
  | op :: ops => ⟨w, op⟩ :: moments (op.apply w).2 ops

theorem moments_concat (w : World) (ops : List Operation) (op : Operation) :
    moments w (ops ++ [op]) = moments w ops ++ [⟨w.after ops, op⟩] := by
  induction ops generalizing w with
  | nil => rfl
  | cons first ops ih => exact congrArg (_ :: ·) (ih (first.apply w).2)

theorem after_concat (w : World) (ops : List Operation) (op : Operation) :
    w.after (ops ++ [op]) = Moment.behind ⟨w.after ops, op⟩ := by
  simp only [World.after, List.foldl_append]
  rfl

/-! ### Since -/

/-- At some moment of a run the first was true, and at every later one the second. -/
def Since (p q : Moment → Prop) (run : List Moment) : Prop :=
  ∃ before m later, run = before ++ m :: later ∧ p m ∧ ∀ n ∈ later, q n

section

variable {p q : Moment → Prop} {run : List Moment} {m : Moment}

theorem not_since_nil : ¬ Since p q [] := by
  rintro ⟨before, m, later, h, -⟩
  cases before <;> cases h

/-- The first is true at the last moment, or it was true before and the second is true now. -/
theorem since_concat : Since p q (run ++ [m]) ↔ p m ∨ q m ∧ Since p q run := by
  constructor
  · rintro ⟨before, x, later, h, hp, hq⟩
    -- The moment that was found is the last one, or the last one comes later.
    rcases List.eq_nil_or_concat later with rfl | ⟨earlier, y, rfl⟩
    · obtain ⟨-, hx⟩ := List.append_inj' h rfl
      cases hx
      exact .inl hp
    · rw [List.concat_eq_append, ← List.cons_append, ← List.append_assoc] at h
      obtain ⟨hrun, hy⟩ := List.append_inj' h rfl
      cases hy
      rw [List.concat_eq_append] at hq
      refine .inr ⟨hq m (by simp), before, x, earlier, hrun, hp, fun n hn => hq n ?_⟩
      exact List.mem_append_left _ hn
  · rintro (hp | ⟨hq, before, x, later, rfl, hp, hlater⟩)
    · exact ⟨run, m, [], rfl, hp, fun _ hn => nomatch hn⟩
    · refine ⟨before, x, later ++ [m], by simp, hp, fun n hn => ?_⟩
      rcases List.mem_append.1 hn with hn | hn
      · exact hlater n hn
      · exact List.mem_singleton.1 hn ▸ hq

end

/-! ### The log behind one operation -/

section

variable {m : Moment} {id : ContextId} {r : Report}

theorem Moment.does (hw : m.world.WellFormed) : Does m.world m.op m.answer m.behind :=
  m.op.does hw

/-- What the log says about a context behind an operation: what a failed verification of the context
found, or else, unless the context was repaired, what it said before. -/
theorem find?_behind_eq_some_iff (hw : m.world.WellFormed) :
    m.behind.log.find? id = some r ↔
      m.Fails id ∧ inspect m.world.tree id = .ok r ∨
        (¬ m.Fails id ∧ ¬ m.Repairs id) ∧ m.world.log.find? id = some r := by
  have hdoes := m.does hw
  simp only [Moment.Fails, Moment.Repairs]
  generalize m.answer = a, m.behind = w' at hdoes ⊢
  obtain ⟨w, op⟩ := m
  simp only at hdoes ⊢
  cases hdoes with
  | failed => simp
  | @edited _ a t haudit _ =>
    -- An edit neither verifies nor repairs, and leaves the log alone.
    have hverify : op ≠ .verify id := by
      rintro rfl
      cases haudit
    have hrepair : op ≠ .repair id := by
      rintro rfl
      cases haudit
    have hall : op ≠ .repairAll := by
      rintro rfl
      cases haudit
    simp [hverify, hrepair, hall]
  | passed _ _ => simp
  | @logged c s hs hinvalid =>
    rw [Register.find?_insert]
    by_cases hc : id = c
    · subst hc
      simp [hs]
    · simp [hc, Ne.symm hc]
  | @spared c s hlog _ _ =>
    by_cases hc : id = c
    · subst hc
      simp [hlog]
    · simp [Ne.symm hc]
  | @repaired c s hs _ =>
    rw [Register.find?_erase]
    by_cases hc : id = c
    · simp [hc]
    · simp [hc, Ne.symm hc]
  | cleared =>
    rw [log_foldl_settle]
    simp [Register.find?, Register.lookup]

/-- A verification that fails is one whose inspection finds something wrong. -/
theorem Moment.Fails.inspect_eq_ok (hw : m.world.WellFormed) (h : m.Fails id) :
    ∃ r, inspect m.world.tree id = .ok r ∧ r.isValid = false := by
  have hdoes := m.does hw
  rw [h.1, h.2] at hdoes
  generalize m.behind = w' at hdoes
  cases hdoes with
  | edited haudit _ => cases haudit
  | logged hr hinvalid => exact ⟨_, hr, hinvalid⟩

/-- Whether the log says anything about a context behind an operation. -/
theorem isSome_behind_iff (hw : m.world.WellFormed) :
    (m.behind.log.find? id).isSome ↔
      m.Fails id ∨ ¬ m.Repairs id ∧ (m.world.log.find? id).isSome := by
  simp only [Option.isSome_iff_exists, find?_behind_eq_some_iff hw]
  constructor
  · rintro ⟨r, ⟨hfails, -⟩ | ⟨⟨-, hrepairs⟩, hlog⟩⟩
    · exact .inl hfails
    · exact .inr ⟨hrepairs, r, hlog⟩
  · intro h
    by_cases hfails : m.Fails id
    · obtain ⟨r, hr, -⟩ := hfails.inspect_eq_ok hw
      exact ⟨r, .inl ⟨hfails, hr⟩⟩
    · obtain ⟨hrepairs, r, hlog⟩ := h.resolve_left hfails
      exact ⟨r, .inr ⟨⟨hfails, hrepairs⟩, hlog⟩⟩

/-- A repair finds something to do exactly if the log says something or an inspection finds
something wrong. -/
theorem answer_repair_eq_true_iff {w : World} (hw : w.WellFormed) :
    ((Operation.repair id).apply w).1 = .ok (.flag true) ↔
      (w.log.find? id).isSome ∨ ∃ r, inspect w.tree id = .ok r ∧ r.isValid = false := by
  obtain ⟨r, hlog, hr, hvalid, h⟩ | ⟨r, hs, -, h⟩ | ⟨hlog, hno, h⟩ := repair_cases hw id
  · rw [apply_eq_of_ok (map_eq_of_ok h), hlog, hr]
    simp [hvalid]
  · rw [apply_eq_of_ok (map_eq_of_ok h)]
    refine iff_of_true rfl ?_
    rcases hs with hlog | ⟨-, hr, hinvalid⟩
    · rw [hlog]
      exact .inl rfl
    · exact .inr ⟨r, hr, hinvalid⟩
  · rw [apply_eq_of_error (map_eq_of_error h), hlog, inspect_eq_error hno]
    simp

end

/-! ### The log behind a run -/

theorem wellFormed_after (ops : List Operation) : (World.after {} ops).WellFormed :=
  World.Reachable.wellFormed ⟨ops, rfl⟩

section

variable {id : ContextId} {r : Report}

theorem isSome_after_iff (ops : List Operation) :
    ((World.after {} ops).log.find? id).isSome ↔
      Since (·.Fails id) (¬ ·.Repairs id) (moments {} ops) := by
  induction ops using List.reverseRecOn with
  | nil => exact iff_of_false Bool.false_ne_true not_since_nil
  | append_singleton ops op ih =>
    rw [after_concat, moments_concat, since_concat, isSome_behind_iff (wellFormed_after ops), ih]

theorem find?_after_eq_some_iff (ops : List Operation) :
    (World.after {} ops).log.find? id = some r ↔
      Since (fun m => m.Fails id ∧ inspect m.world.tree id = .ok r)
        (fun m => ¬ m.Fails id ∧ ¬ m.Repairs id) (moments {} ops) := by
  induction ops using List.reverseRecOn with
  | nil => exact iff_of_false nofun not_since_nil
  | append_singleton ops op ih =>
    rw [after_concat, moments_concat, since_concat, find?_behind_eq_some_iff (wellFormed_after ops),
      ih]

/-- What the log says is never that nothing is wrong. -/
theorem isValid_of_find?_after {ops : List Operation}
    (h : (World.after {} ops).log.find? id = some r) : r.isValid = false := by
  induction ops using List.reverseRecOn with
  | nil => cases h
  | append_singleton ops op ih =>
    have hw : (World.after {} ops).WellFormed := wellFormed_after ops
    rw [after_concat, find?_behind_eq_some_iff hw] at h
    rcases h with ⟨hfails, hr⟩ | ⟨-, hlog⟩
    · obtain ⟨s, hs, hinvalid⟩ := hfails.inspect_eq_ok hw
      cases hr.symm.trans hs
      exact hinvalid
    · exact ih hlog

end

/-- What the log says about a context behind a run. -/
structure Remembers (ops : List Operation) (id : ContextId) : Prop where
  /-- It says something exactly if a verification of the context has failed and no repair of it has
  succeeded since. -/
  present : ((World.after {} ops).log.find? id).isSome ↔
    Since (·.Fails id) (¬ ·.Repairs id) (moments {} ops)
  /-- It says what an inspection found when the last of these verifications failed, whatever
  happened to the tree later. -/
  latest : ∀ r, (World.after {} ops).log.find? id = some r ↔
    Since (fun m => m.Fails id ∧ inspect m.world.tree id = .ok r)
      (fun m => ¬ m.Fails id ∧ ¬ m.Repairs id) (moments {} ops)
  /-- It says that something is wrong. -/
  invalid : ∀ r, (World.after {} ops).log.find? id = some r → r.isValid = false
  /-- A repair would find something to do exactly if it says something or an inspection finds
  something wrong. -/
  repairs : ((Operation.repair id).apply (World.after {} ops)).1 = .ok (.flag true) ↔
    ((World.after {} ops).log.find? id).isSome ∨
      ∃ r, inspect (World.after {} ops).tree id = .ok r ∧ r.isValid = false

/-- The log remembers the last failure of every context that has not been repaired. -/
theorem log_remembers (ops : List Operation) (id : ContextId) : Remembers ops id where
  present := isSome_after_iff ops
  latest _ := find?_after_eq_some_iff ops
  invalid _ := isValid_of_find?_after
  repairs := answer_repair_eq_true_iff (wellFormed_after ops)

-- The context has been hung below the global one and passes, but what was wrong is not forgotten.
example :
    ((World.after {} [.createDetached, .verify ⟨1⟩, .orphan ⟨1⟩, .verify ⟨1⟩]).log.find? ⟨1⟩).map
      (·.finalParent) = some (some ⟨1⟩) := rfl

end Offside.Audit
