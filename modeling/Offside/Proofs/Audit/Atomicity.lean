import Offside.Proofs.Audit.History

/-!
# `Offside.Proofs.Audit.Atomicity`: failing leaves no trace

A `Call` is anything that can be asked of a world: an operation, or a `Question` that its tree
answers. Nothing takes back what a call that fails has written, neither in the tree nor in the log
(`Effect.mutate`), and still it leaves the world as it was (`run_error_eq`). Three things come
together in that:

* a mutation that writes to two lists, or asks in between, has asked all it has to ask before it
  writes, and one that asks last gets an answer (`Mutation.Atomic`, one lemma a mutation);
* a verification fails before it logs;
* a repair fails before it clears an entry of the log, as what is logged about a context of a
  well-formed world can be mended (`Report.Fits`), and so the repair of all entries never fails
  halfway (`repairAll_eq_settle`).

Handles are numbered by counting what is there. So a failure uses up no number either, and nothing
does but a creation that succeeds (`counts_after`): whatever is done between, the next creation
answers the number it would have answered in place of the call that failed (`failure_atomic`).
-/

set_option autoImplicit false

namespace Offside.Audit

open Offside.Scope Effect

/-! ### Counting behind an operation -/

section

variable {w w' : World} {op : Operation}

theorem counts_settle (w : World) (id : ContextId) : (w.settle id).tree.counts = w.tree.counts := by
  cases hlog : w.log.find? id with
  | none => rw [World.settle_of_not_logged hlog]
  | some r =>
    rw [World.settle_of_logged hlog]
    simp [Tree.counts, Report.amend]

theorem counts_foldl_settle (w : World) (ids : List ContextId) :
    (ids.foldl World.settle w).tree.counts = w.tree.counts := by
  induction ids generalizing w with
  | nil => rfl
  | cons id ids ih => exact (ih (w.settle id)).trans (counts_settle w id)

/-- A handle that an operation answers has the next number. -/
theorem Does.numbered {a : Outcome} (h : Does w op (.ok a) w') : a.Numbered w.tree := by
  cases h with
  | edited _ hedit => exact hedit.numbered
  | passed _ _ => trivial
  | logged _ _ => trivial
  | spared _ _ _ => trivial
  | repaired _ _ => trivial
  | cleared => trivial

/-- An operation that answers no handle creates nothing. -/
theorem Does.counts {a : Except Scope.Error Outcome} (h : Does w op a w')
    (ha : ∀ o, a = .ok o → o.isHandle = false) : w'.tree.counts = w.tree.counts := by
  cases h with
  | failed => rfl
  | edited _ hedit => exact hedit.counts (ha _ rfl)
  | passed _ _ => rfl
  | logged _ _ => rfl
  | spared _ _ _ => rfl
  | @repaired id r _ _ => simp [Tree.counts, Report.amend]
  | cleared => exact counts_foldl_settle w _

theorem Outcome.numbered_congr {t t' : Tree} (h : t'.counts = t.counts) (a : Outcome) :
    a.Numbered t' ↔ a.Numbered t := by
  simp only [Tree.counts, Prod.mk.injEq] at h
  obtain ⟨hcontexts, hscripts, hgroups⟩ := h
  cases a <;> simp only [Numbered, hcontexts, hscripts, hgroups]

end

/-- The operation succeeds and creates something. -/
def Moment.Creates (m : Moment) : Prop := ∃ a, m.answer = .ok a ∧ a.isHandle = true

/-- A run in which nothing is created uses up no number. -/
theorem counts_after {w : World} (hw : w.WellFormed) {ops : List Operation}
    (h : ∀ m ∈ moments w ops, ¬ m.Creates) : (w.after ops).tree.counts = w.tree.counts := by
  induction ops generalizing w with
  | nil => rfl
  | cons op ops ih =>
    obtain ⟨hfirst, hrest⟩ := List.forall_mem_cons.1 h
    refine (ih (hw.after [op]) hrest).trans ((op.does hw).counts fun a ha => ?_)
    exact Bool.eq_false_iff.2 fun hhandle => hfirst ⟨a, ha, hhandle⟩

/-! ### Calls -/

/-- A question about a tree. -/
inductive Question where
  /-- What is in a context? -/
  | context (id : ContextId)
  /-- Which context lies some parents further out? -/
  | nthParent (id : ContextId) (n : Nat)
  /-- Where is a name bound? -/
  | ownerOf (id : ContextId) (name : String) (n : Nat)
  /-- What is a name bound to? -/
  | slot (id : ContextId) (name : String) (n : Nat)
  /-- What is the value of a name? -/
  | getVariable (id : ContextId) (name : String) (n : Nat)
  /-- What is the value of a name, for some accessor? -/
  | getVariableFrom (accessor : Option ContextId) (id : ContextId) (name : String) (n : Nat)
  /-- Which names does a context bind? -/
  | localVariables (id : ContextId)
  /-- Which names are visible from a context? -/
  | variableList (id : ContextId)
  /-- What is wrong with a context? -/
  | inspect (id : ContextId)
deriving DecidableEq, Repr

/-- The answer to a question. -/
inductive Reply where
  /-- What is in a context. -/
  | context (c : Context)
  /-- The handle of a context. -/
  | handle (id : ContextId)
  /-- A binding. -/
  | slot (s : Slot)
  /-- A value. -/
  | value (v : Value)
  /-- Some names. -/
  | names (names : List String)
  /-- What an inspection finds. -/
  | report (r : Report)
deriving DecidableEq, Repr

/-- What a tree answers. -/
def Question.answer (t : Tree) : Question → Except Scope.Error Reply
  | context id => (t.context id).map Reply.context
  | nthParent id n => (t.nthParent id n).map Reply.handle
  | ownerOf id name n => (t.ownerOf id name n).map Reply.handle
  | slot id name n => (t.slot id name n).map Reply.slot
  | getVariable id name n => (t.getVariable id name n).map Reply.value
  | getVariableFrom accessor id name n => (t.getVariableFrom accessor id name n).map Reply.value
  | localVariables id => (t.localVariables id).map Reply.names
  | variableList id => (t.variableList id).map Reply.names
  | inspect id => (Audit.inspect t id).map Reply.report

/-- Anything that can be asked of a world. -/
inductive Call where
  /-- A change. -/
  | operation (op : Operation)
  /-- A question. -/
  | question (q : Question)
deriving DecidableEq, Repr

/-- Carry out a call. -/
def Call.run : Call → Effect (Outcome ⊕ Reply)
  | operation op => Sum.inl <$> op.run
  | question q => Sum.inr <$> ask q.answer

/-! ### Failures -/

section

variable {w w' : World} {e : Scope.Error}

theorem eq_error_of_map {α β : Type} {x : Effect α} {g : α → β} (h : (g <$> x) w = .error e w') :
    x w = .error e w' := by
  change EStateM.map g x w = _ at h
  rw [EStateM.map] at h
  split at h
  · cases h
  · rename_i hx
    cases h
    exact hx

/-- A call that fails leaves the world as it was. Of an operation `Does.failed` says it, and that
case stands on the atomicity of its mutation. -/
theorem run_error_eq (hw : w.WellFormed) {call : Call} (h : call.run w = .error e w') : w' = w := by
  cases call with
  | operation op =>
    have hdoes := op.does hw
    rw [apply_eq_of_error (eq_error_of_map h)] at hdoes
    cases hdoes with
    | failed => rfl
  | question q =>
    have hask := eq_error_of_map h
    rw [ask] at hask
    split at hask
    · cases hask
    · cases hask
      rfl

end

/-- What is true behind a failure. -/
structure Untouched (w w' : World) : Prop where
  /-- The tree and the log are as they were. -/
  same : w' = w
  /-- Whatever is done next, as long as nothing is created: if then something is, its number is how
  many things of that sort there were before the failure. -/
  next : ∀ ops, (∀ m ∈ moments w' ops, ¬ m.Creates) →
    ∀ (op : Operation) (a : Outcome), (op.apply (w'.after ops)).1 = .ok a → a.Numbered w.tree

/-- Whatever a program has built and whatever the log says of it, a call that fails leaves no trace:
not in the tree, not in the log, and not in the numbers of what is created later. -/
theorem failure_atomic {w w' : World} (hw : w.Reachable) (call : Call) {e : Scope.Error}
    (h : call.run w = .error e w') : Untouched w w' where
  same := run_error_eq hw.wellFormed h
  next ops hops op a ha := by
    -- What follows the failure is a run from the world that the failure found.
    cases run_error_eq hw.wellFormed h
    have hdoes := op.does (hw.wellFormed.after ops)
    rw [ha] at hdoes
    exact (Outcome.numbered_congr (counts_after hw.wellFormed hops) a).1 hdoes.numbered

/-- There is no group nine that the script could become a member of. -/
theorem failure_atomic_addScript :
    ∃ w', (Call.operation (.addScript "main" "src" [] (some ⟨9⟩))).run tangle =
        .error (.unknownGroup ⟨9⟩) w' ∧ Untouched tangle w' :=
  ⟨tangle, rfl, failure_atomic tangle_reachable (.operation (.addScript "main" "src" [] (some ⟨9⟩)))
    (e := .unknownGroup ⟨9⟩) rfl⟩

-- The first script that is added gets the first number.
example : ((Operation.addScript "main" "src" [] none).apply (tangle.after
    [.addScript "main" "src" [] (some ⟨9⟩), .repair ⟨9⟩, .verify ⟨3⟩])).1 = .ok (.script ⟨0⟩) := rfl

end Offside.Audit
