import Offside.Proofs.Audit.Restoring
import Offside.Proofs.Scope.Outward

/-!
# `Offside.Proofs.Audit.Exactness`: reports are exact

`Report.Exact` says what a report has to say about a context, in terms of its parent links and of
what it binds: where the links lead, not how an inspection walks, and which names are bound to
what, not in which order they are kept. What an inspection finds out (`Finds`) is just that
(`Finds.report_exact`), by `endsAt_iff_outward` for the chain and `localSlot?_eq_some_iff` for the
bindings. `inspect_exact` is the result for all trees that a program can build, cyclic ones
included.
-/

set_option autoImplicit false

namespace Offside.Scope.Tree

variable {t : Tree} {id : ContextId} {name : String} {slot : Slot}

/-- What a context binds is what can be looked up in it. -/
theorem localSlot?_eq_some_iff (ht : t.WellFormed) :
    t.localSlot? id name = some slot ↔ (name, slot) ∈ t.bindingsOf id := by
  cases hc : t.context? id with
  | none => simp [localSlot?, bindingsOf, hc]
  | some c =>
    rw [localSlot?, hc, Option.bind_some, bindingsOf_eq hc]
    exact Register.find?_eq_some_iff (ht.ordered id c hc).nodup_keys

theorem binds_eq_true_iff : t.binds id name = true ↔ name ∈ (t.bindingsOf id).map Prod.fst := by
  cases hc : t.context? id with
  | none => simp [binds, localSlot?, bindingsOf, hc]
  | some c =>
    rw [binds, localSlot?, hc, Option.bind_some, bindingsOf_eq hc]
    exact Register.mem_keys_iff.symm

end Offside.Scope.Tree

namespace Offside.Audit

open Offside.Scope

/-- What a report says about a context is what there is to say. -/
structure Report.Exact (r : Report) (t : Tree) (id : ContextId) : Prop where
  /-- The chain is circular if its links never lead to a context without a parent. -/
  circular : r.circular = true ↔ ∀ k c, t.outward id k = some c → t.parentOf c ≠ none
  /-- Otherwise they lead to one such context and to no other, and that is the final parent. It is
  wrong unless it is the global context. -/
  ends : r.circular = false → ∃ last, r.finalParent = some last ∧
    (∃ k, t.outward id k = some last) ∧ t.parentOf last = none ∧
    (∀ k c, t.outward id k = some c → t.parentOf c = none → c = last) ∧
    (r.endsElsewhere = true ↔ last ≠ .global)
  /-- Just a circular chain has no final parent. -/
  finalParent : r.finalParent = none ↔ r.circular = true
  /-- The context binds the empty name. -/
  emptyName : r.emptyName = true ↔ t.binds id "" = true
  /-- The names listed are those that the context binds to null. -/
  nullNames : ∀ name, name ∈ r.nullNames ↔
    ∃ slot, t.localSlot? id name = some slot ∧ slot.value.isNull = true
  /-- They are listed in order, each once. -/
  ordered : r.nullNames.Pairwise (· < ·)
  /-- There is such a name. -/
  hasNull : r.hasNull = true ↔ ∃ name, name ∈ r.nullNames
  /-- Nothing is wrong if the chain ends at the global context and no name that is bound is empty
  or bound to null. -/
  isValid : r.isValid = true ↔
    ((∃ k, t.outward id k = some .global) ∧ t.parentOf .global = none) ∧
      ∀ name slot, t.localSlot? id name = some slot → name ≠ "" ∧ slot.value.isNull = false

namespace Finds

variable {t : Tree} {id : ContextId} {r : Report}

theorem circular_iff (h : Finds t id r) :
    r.circular = true ↔ ∀ k c, t.outward id k = some c → t.parentOf c ≠ none := by
  rw [h.circular]
  simp only [Tree.endsAt_iff_outward, not_and, forall_exists_index]
  exact ⟨fun hno k c hk => hno c k hk, fun hno c k hk => hno k c hk⟩

theorem finalParent_eq_none_iff (h : Finds t id r) :
    r.finalParent = none ↔ r.circular = true := by
  rw [h.circular, Option.eq_none_iff_forall_ne_some]
  exact forall_congr' fun last => not_congr (h.finalParent last)

theorem mem_nullNames_iff (h : Finds t id r) (ht : t.WellFormed) {name : String} :
    name ∈ r.nullNames ↔
      ∃ slot, t.localSlot? id name = some slot ∧ slot.value.isNull = true := by
  rw [h.nullNames, List.mem_map]
  constructor
  · rintro ⟨e, he, rfl⟩
    obtain ⟨he, hnull⟩ := List.mem_filter.1 he
    exact ⟨e.2, (Tree.localSlot?_eq_some_iff ht).2 he, hnull⟩
  · rintro ⟨slot, hslot, hnull⟩
    exact ⟨(name, slot), List.mem_filter.2 ⟨(Tree.localSlot?_eq_some_iff ht).1 hslot, hnull⟩, rfl⟩

theorem nullNames_ordered (h : Finds t id r) (ht : t.WellFormed) :
    r.nullNames.Pairwise (· < ·) := by
  rw [h.nullNames, List.pairwise_map]
  refine List.Pairwise.sublist List.filter_sublist ?_
  cases hc : t.context? id with
  | none =>
    rw [Tree.bindingsOf, hc]
    exact List.Pairwise.nil
  | some c =>
    rw [Tree.bindingsOf_eq hc]
    exact ht.ordered id c hc

/-- What an inspection finds out is exact. -/
theorem report_exact (h : Finds t id r) (ht : t.WellFormed) : r.Exact t id where
  circular := h.circular_iff
  ends hends := by
    cases hlast : r.finalParent with
    | none =>
      rw [h.finalParent_eq_none_iff.1 hlast] at hends
      cases hends
    | some last =>
      have hend := (h.finalParent last).1 hlast
      obtain ⟨hleads, hroot⟩ := Tree.endsAt_iff_outward.1 hend
      refine ⟨last, rfl, hleads, hroot, fun k c hk hnone => ?_, ?_⟩
      · exact hend.unique (Tree.endsAt_iff_outward.2 ⟨⟨k, hk⟩, hnone⟩)
      · rw [Report.endsElsewhere, hlast, Option.any_some, decide_eq_true_iff]
  finalParent := h.finalParent_eq_none_iff
  emptyName := h.emptyName.trans Tree.binds_eq_true_iff.symm
  nullNames _ := h.mem_nullNames_iff ht
  ordered := h.nullNames_ordered ht
  hasNull := by
    rw [Report.hasNull, Bool.not_eq_true', List.isEmpty_eq_false_iff_exists_mem]
  isValid := by
    rw [h.isValid_iff, ← Tree.endsAt_iff_outward]
    constructor
    · rintro ⟨hrooted, hbindings⟩
      exact ⟨hrooted, fun name slot hslot =>
        hbindings (name, slot) ((Tree.localSlot?_eq_some_iff ht).1 hslot)⟩
    · rintro ⟨hrooted, hbindings⟩
      exact ⟨hrooted, fun e he => hbindings e.1 e.2 ((Tree.localSlot?_eq_some_iff ht).2 he)⟩

end Finds

/-- Every context of every tree that a program can build is reported on, and exactly. -/
theorem inspect_exact {w : World} (hw : w.Reachable) {id : ContextId}
    (hid : id ∈ w.tree.contextIds) : ∃ r, inspect w.tree id = .ok r ∧ r.Exact w.tree id := by
  have ht : w.tree.WellFormed := hw.wellFormed.tree
  obtain ⟨r, hr, hfinds⟩ := inspect_eq_ok ht (Tree.mem_contextIds.1 hid)
  exact ⟨r, hr, hfinds.report_exact ht⟩

/-- The chain of five passes every context but the global one before it comes round. -/
theorem inspect_exact_below_cycle :
    ∃ r, inspect tangle.tree ⟨5⟩ = .ok r ∧ r.Exact tangle.tree ⟨5⟩ :=
  inspect_exact tangle_reachable (by decide)

-- Neither the chain of five nor that of the cycle ends, and the empty name is bound to null.
example : inspect tangle.tree ⟨5⟩ = .ok
    { circular := true, emptyName := true, nullNames := [""], finalParent := none } := rfl

end Offside.Audit
