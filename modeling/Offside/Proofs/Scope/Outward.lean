import Mathlib.Data.Finset.Card
import Offside.Proofs.Scope.Change

/-!
# `Offside.Proofs.Scope.Outward`: following parent links

`outward` follows parent links, one after another, as many as it is told. Look-ups and
inspections walk in other ways, and this file says that they all go where the links lead:

* `climb_eq_outward`: a climb is the same walk, taken from the other side.
* `endsAt_iff_outward`: a chain ends at the context without a parent that its links lead to.
* `WellFormed.exists_outward_lt`: every context of a chain is reached by fewer links than the
  tree has contexts. A longer walk has come to some context twice, and what lies between can be
  left out (`outward_cut`).
* `find?_ancestors_eq_some_iff` and `find?_ancestors_eq_none_iff`: so a search through the
  ancestors finds the first of all contexts outwards, though it gives up after as many steps as
  there are contexts.
-/

set_option autoImplicit false

namespace Offside.Scope

namespace Tree

variable {t : Tree} {id c : ContextId}

/-- The context that the given number of parent links lead to, if the chain has so many. -/
def outward (t : Tree) (id : ContextId) : Nat → Option ContextId
  | 0 => some id
  | k + 1 => (t.outward id k).bind t.parentOf

/-- Following links on from where links have led is following all of them. -/
theorem outward_add (t : Tree) (id : ContextId) (n k : Nat) :
    t.outward id (n + k) = (t.outward id n).bind (t.outward · k) := by
  induction k with
  | zero => exact (Option.bind_fun_some _).symm
  | succ k ih =>
    show (t.outward id (n + k)).bind t.parentOf = _
    rw [ih, Option.bind_assoc]
    rfl

/-- The first link can be followed first. -/
theorem outward_succ (t : Tree) (id : ContextId) (k : Nat) :
    t.outward id (k + 1) = (t.parentOf id).bind (t.outward · k) := by
  rw [Nat.add_comm, outward_add]
  rfl

theorem climb_eq_outward (t : Tree) (n : Nat) (id : ContextId) :
    t.climb n id = t.outward id n := by
  induction n generalizing id with
  | zero => rfl
  | succ n ih =>
    rw [climb, outward_succ]
    cases t.parentOf id with
    | none => rfl
    | some p => exact ih p

/-- Where a chain has so many links, it has fewer. -/
theorem exists_outward_of_le {i k : Nat} (hk : t.outward id k = some c) (hi : i ≤ k) :
    ∃ d, t.outward id i = some d := by
  obtain ⟨m, rfl⟩ := Nat.exists_eq_add_of_le hi
  rw [outward_add] at hk
  obtain ⟨d, hd, -⟩ := Option.bind_eq_some_iff.1 hk
  exact ⟨d, hd⟩

/-- A chain ends where its links lead to a context without a parent. -/
theorem endsAt_iff_outward {last : ContextId} :
    t.EndsAt id last ↔ (∃ k, t.outward id k = some last) ∧ t.parentOf last = none := by
  constructor
  · intro h
    refine ⟨?_, h.parentOf_eq_none⟩
    induction h with
    | root _ => exact ⟨0, rfl⟩
    | step hparent _ ih =>
      obtain ⟨k, hk⟩ := ih
      refine ⟨k + 1, ?_⟩
      rw [outward_succ, hparent]
      exact hk
  · rintro ⟨⟨k, hk⟩, hnone⟩
    induction k generalizing id with
    | zero =>
      cases hk
      exact .root hnone
    | succ k ih =>
      rw [outward_succ] at hk
      obtain ⟨p, hp, hk⟩ := Option.bind_eq_some_iff.1 hk
      exact .step hp (ih hk)

/-! ### Going round -/

theorem WellFormed.has_outward (h : t.WellFormed) (hid : t.Has id) {k : Nat}
    (hk : t.outward id k = some c) : t.Has c := by
  induction k generalizing c with
  | zero =>
    cases hk
    exact hid
  | succ k ih =>
    obtain ⟨d, -, hc⟩ := Option.bind_eq_some_iff.1 hk
    exact h.parents d c hc

/-- A walk that comes to one context twice is longer than it need be. -/
theorem outward_cut {i j k : Nat} (hij : i < j) (hjk : j ≤ k)
    (hsame : t.outward id i = t.outward id j) (hk : t.outward id k = some c) :
    ∃ m < k, t.outward id m = some c := by
  obtain ⟨rest, rfl⟩ := Nat.exists_eq_add_of_le hjk
  refine ⟨i + rest, by omega, ?_⟩
  rw [outward_add, hsame, ← outward_add]
  exact hk

/-- A walk with at least as many links as there are contexts is longer than it need be. -/
theorem WellFormed.exists_outward_shorter (h : t.WellFormed) (hid : t.Has id) {k : Nat}
    (hlong : t.contexts.length ≤ k) (hk : t.outward id k = some c) :
    ∃ m < k, t.outward id m = some c := by
  -- It passes `k + 1` contexts, which have fewer numbers between them.
  have hmaps : ∀ i ∈ Finset.range (k + 1),
      ((t.outward id i).elim 0 ContextId.index) ∈ Finset.range t.contexts.length := by
    intro i hi
    obtain ⟨d, hd⟩ := exists_outward_of_le hk (Nat.lt_succ_iff.1 (Finset.mem_range.1 hi))
    rw [hd]
    exact Finset.mem_range.2 (h.has_outward hid hd)
  have hcard : (Finset.range t.contexts.length).card < (Finset.range (k + 1)).card := by
    rw [Finset.card_range, Finset.card_range]
    omega
  obtain ⟨i, hi, j, hj, hne, hindex⟩ :=
    Finset.exists_ne_map_eq_of_card_lt_of_maps_to hcard hmaps
  have hik : i ≤ k := Nat.lt_succ_iff.1 (Finset.mem_range.1 hi)
  have hjk : j ≤ k := Nat.lt_succ_iff.1 (Finset.mem_range.1 hj)
  have hsame : t.outward id i = t.outward id j := by
    obtain ⟨d, hd⟩ := exists_outward_of_le hk hik
    obtain ⟨e, he⟩ := exists_outward_of_le hk hjk
    rw [hd, he] at hindex ⊢
    exact congrArg (fun index => some (ContextId.mk index)) hindex
  rcases Nat.lt_or_gt_of_ne hne with hij | hji
  · exact outward_cut hij hjk hsame hk
  · exact outward_cut hji hik hsame.symm hk

/-- Every context of a chain is reached by fewer links than the tree has contexts, also if the
chain goes round for ever. -/
theorem WellFormed.exists_outward_lt (h : t.WellFormed) (hid : t.Has id) {k : Nat}
    (hk : t.outward id k = some c) :
    ∃ j ≤ k, j < t.contexts.length ∧ t.outward id j = some c := by
  induction k using Nat.strong_induction_on with
  | _ k ih =>
    rcases Nat.lt_or_ge k t.contexts.length with hlt | hlong
    · exact ⟨k, Nat.le_refl k, hlt, hk⟩
    · obtain ⟨m, hm, hmc⟩ := h.exists_outward_shorter hid hlong hk
      obtain ⟨j, hj, hlt, hjc⟩ := ih m hm hmc
      exact ⟨j, by omega, hlt, hjc⟩

/-! ### Ancestors -/

/-- A walk with a budget passes what is reached within it. -/
theorem chain_eq_filterMap (t : Tree) (budget : Nat) (id : ContextId) :
    t.chain budget id = (List.range budget).filterMap (t.outward id) := by
  induction budget generalizing id with
  | zero => rfl
  | succ budget ih =>
    have hstep : t.outward id ∘ Nat.succ = fun k => (t.parentOf id).bind (t.outward · k) :=
      funext (outward_succ t id)
    rw [chain, List.range_succ_eq_map,
      List.filterMap_cons_some (show t.outward id 0 = some id from rfl), List.filterMap_map, hstep]
    congr 1
    cases t.parentOf id with
    | none => exact (List.filterMap_eq_nil_iff.2 fun _ _ => rfl).symm
    | some p => exact ih p

theorem ancestors_eq_nil (hid : ¬ t.Has id) : t.ancestors id = [] := by
  cases hc : t.context? id with
  | none => rw [ancestors, hc]
  | some c => exact absurd (has_iff.2 ⟨c, hc⟩) hid

/-- The ancestors of a context begin with itself. -/
theorem ancestors_eq_cons (hid : t.Has id) : ∃ outer, t.ancestors id = id :: outer := by
  obtain ⟨c, hc⟩ := has_iff.1 hid
  rw [ancestors, hc, ← Nat.succ_pred_eq_of_pos (Nat.zero_lt_of_lt hid)]
  exact ⟨_, rfl⟩

theorem ancestors_eq_filterMap (hid : t.Has id) :
    t.ancestors id = (List.range t.contexts.length).filterMap (t.outward id) := by
  obtain ⟨x, hx⟩ := has_iff.1 hid
  rw [ancestors, hx]
  exact chain_eq_filterMap t _ id

/-- The ancestors of a context are all that its parent links lead to. -/
theorem mem_ancestors_iff (h : t.WellFormed) (hid : t.Has id) :
    c ∈ t.ancestors id ↔ ∃ k, t.outward id k = some c := by
  rw [ancestors_eq_filterMap hid, List.mem_filterMap]
  constructor
  · rintro ⟨k, -, hk⟩
    exact ⟨k, hk⟩
  · rintro ⟨k, hk⟩
    obtain ⟨j, -, hlt, hj⟩ := h.exists_outward_lt hid hk
    exact ⟨j, List.mem_range.2 hlt, hj⟩

variable {p : ContextId → Bool}

/-- A search through the ancestors fails if it would fail on the whole chain. -/
theorem find?_ancestors_eq_none_iff (h : t.WellFormed) (hid : t.Has id) :
    (t.ancestors id).find? p = none ↔ ∀ k c, t.outward id k = some c → p c = false := by
  rw [List.find?_eq_none]
  constructor
  · intro hno k c hk
    exact Bool.eq_false_iff.2 (hno c ((mem_ancestors_iff h hid).2 ⟨k, hk⟩))
  · intro hno c hc
    obtain ⟨k, hk⟩ := (mem_ancestors_iff h hid).1 hc
    exact Bool.eq_false_iff.1 (hno k c hk)

/-- A search through the ancestors finds the first context of the chain that there is to find. -/
theorem find?_ancestors_eq_some_iff (h : t.WellFormed) (hid : t.Has id) :
    (t.ancestors id).find? p = some c ↔
      ∃ k, t.outward id k = some c ∧ p c = true ∧
        ∀ j < k, ∀ d, t.outward id j = some d → p d = false := by
  rw [ancestors_eq_filterMap hid, List.find?_filterMap]
  constructor
  · intro hfind
    obtain ⟨k, hk, hc⟩ := Option.bind_eq_some_iff.1 hfind
    obtain ⟨hp, -, hfirst⟩ := List.find?_range_eq_some.1 hk
    rw [hc, Option.any_some] at hp
    refine ⟨k, hc, hp, fun j hj d hd => ?_⟩
    have hnot := hfirst j hj
    rw [hd, Option.any_some] at hnot
    simpa using hnot
  · rintro ⟨k, hc, hp, hfirst⟩
    obtain ⟨j, hjk, hlt, hj⟩ := h.exists_outward_lt hid hc
    -- Nothing nearer is found, so the walk that is short enough is this one.
    have hkj : k ≤ j := by
      by_contra hkj
      rw [hfirst j (Nat.not_le.1 hkj) c hj] at hp
      cases hp
    have hk : (List.range t.contexts.length).find? (fun i => (t.outward id i).any p) = some k := by
      refine List.find?_range_eq_some.2 ⟨?_, List.mem_range.2 (by omega), fun i hi => ?_⟩
      · rw [hc, Option.any_some]
        exact hp
      · cases hd : t.outward id i with
        | none => rfl
        | some d =>
          rw [Option.any_some, hfirst i hi d hd]
          rfl
    exact Option.bind_eq_some_iff.2 ⟨k, hk, hc⟩

end Tree

end Offside.Scope
