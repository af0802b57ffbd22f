import Offside.Proofs.Audit.Exactness
import Offside.Proofs.Scope.Endless

/-!
# `Offside.Proofs.Scope.Listing`: which names a context can see

`Lists` says of a list of contexts that it holds the different contexts that parent links lead to,
nearest first. Every context of a tree has such a list, and it is what an inspection passes
(`lists_passed`).

The names that can be seen from a context should be those of these contexts, each once for every
context that binds it. `variableList_exact` says when a listing answers that. Where a chain ends, it
always does. Where a chain goes round, the listing goes round as well, until it has passed as many
contexts as there are in the tree. The chain has fewer (`Lists.length_lt`), so the listing comes to
some of them again, and if these bind anything, it names that again.
-/

set_option autoImplicit false

namespace Offside.Scope

namespace Tree

open Offside.Audit

variable {t : Tree} {id : ContextId} {chain : List ContextId} {name : String}

/-- The different contexts that the parent links of a context lead to, nearest first. -/
structure Lists (t : Tree) (id : ContextId) (chain : List ContextId) : Prop where
  /-- None occurs twice. -/
  nodup : chain.Nodup
  /-- The one at each place is reached by that many links. -/
  links : ∀ k c, chain[k]? = some c → t.outward id k = some c
  /-- All that links lead to are there. -/
  all : ∀ k c, t.outward id k = some c → c ∈ chain

/-! ### The contexts of a chain -/

/-- A walk with a budget passes what so many links lead to. -/
theorem getElem?_chain (t : Tree) (budget : Nat) (id : ContextId) (k : Nat) :
    (t.chain budget id)[k]? = if k < budget then t.outward id k else none := by
  induction budget generalizing id k with
  | zero => rfl
  | succ budget ih =>
    rw [Tree.chain]
    cases k with
    | zero => rfl
    | succ k =>
      rw [List.getElem?_cons_succ, outward_succ]
      simp only [Nat.add_lt_add_iff_right]
      cases t.parentOf id with
      | none => simp
      | some p => exact ih p k

theorem getElem?_ancestors (hid : t.Has id) (k : Nat) :
    (t.ancestors id)[k]? = if k < t.contexts.length then t.outward id k else none := by
  obtain ⟨x, hx⟩ := has_iff.1 hid
  rw [ancestors, hx]
  exact getElem?_chain t _ id k

theorem prefix_untilRepeat {α : Type} [DecidableEq α] (seen l : List α) :
    untilRepeat seen l <+: l := by
  induction l generalizing seen with
  | nil => exact List.prefix_refl _
  | cons a l ih =>
    rw [untilRepeat]
    split
    · exact List.nil_prefix
    · exact (List.prefix_cons_inj a).2 (ih (a :: seen))

/-- An inspection passes the different contexts of a chain. -/
theorem lists_passed (ht : t.WellFormed) (hid : t.Has id) : t.Lists id (passed t id) := by
  obtain ⟨last, hpassing, hround⟩ := passing_passed ht hid
  refine ⟨hpassing.nodup, fun k c hk => ?_, fun k c hk => ?_⟩
  · obtain ⟨hlt, rfl⟩ := List.getElem?_eq_some_iff.1 hk
    have hfull : (t.ancestors id)[k]? = some (passed t id)[k] :=
      List.prefix_iff_getElem?.1 (prefix_untilRepeat [] (t.ancestors id)) k hlt
    rw [getElem?_ancestors hid] at hfull
    split at hfull
    · exact hfull
    · cases hfull
  · induction k generalizing c with
    | zero =>
      cases hk
      exact hpassing.starts
    -- The parent of a context that was passed was passed as well.
    | succ k ih =>
      obtain ⟨d, hd, hparent⟩ := Option.bind_eq_some_iff.1 hk
      rcases hpassing.links d (ih d hd) with rfl | ⟨e, he, hlink⟩
      · exact hround c hparent
      · rw [hparent] at hlink
        cases hlink
        exact he

namespace Lists

/-- A chain ends exactly if there are no more links than different contexts. -/
theorem exists_endsAt_iff (h : t.Lists id chain) :
    (∃ last, t.EndsAt id last) ↔ t.outward id chain.length = none := by
  constructor
  · rintro ⟨last, hend⟩
    by_contra hmore
    obtain ⟨d, hd⟩ := Option.ne_none_iff_exists'.1 hmore
    -- Otherwise every context of the chain has its parent on the chain.
    have hclosed : ∀ c ∈ chain, ∃ p, t.parentOf c = some p ∧ p ∈ chain := by
      intro c hc
      obtain ⟨k, hk, rfl⟩ := List.getElem_of_mem hc
      obtain ⟨p, hp⟩ := exists_outward_of_le hd (Nat.succ_le_of_lt hk)
      have hlink : (t.outward id k).bind t.parentOf = some p := hp
      rw [h.links k _ (List.getElem?_eq_getElem hk)] at hlink
      exact ⟨p, hlink, h.all _ p hp⟩
    exact not_endsAt_of_closed hclosed (h.all 0 id rfl) hend
  · intro hnone
    exact Tree.exists_endsAt_iff.2 ⟨_, hnone⟩

/-- A chain that goes round does not pass the global context, so it has fewer contexts than the
tree. -/
theorem length_lt (h : t.Lists id chain) (ht : t.WellFormed) (hid : t.Has id)
    (hround : ∀ last, ¬ t.EndsAt id last) : chain.length < t.contexts.length := by
  have hreached : ∀ c ∈ chain, ∃ k, t.outward id k = some c := by
    intro c hc
    obtain ⟨k, hk⟩ := List.getElem?_of_mem hc
    exact ⟨k, h.links k c hk⟩
  have hglobal : .global ∉ chain := fun hmem =>
    hround .global (endsAt_iff_outward.2 ⟨hreached _ hmem, ht.rootless⟩)
  have hsubset : (.global :: chain) ⊆ t.contextIds := by
    intro c hc
    rw [mem_contextIds]
    rcases List.mem_cons.1 hc with rfl | hc
    · exact ht.root
    · obtain ⟨k, hk⟩ := hreached c hc
      exact ht.has_outward hid hk
  have hle := ((List.nodup_cons.2 ⟨hglobal, h.nodup⟩).subperm hsubset).length_le
  rw [List.length_cons, contextIds, List.length_map, List.length_range] at hle
  exact hle

end Lists

/-! ### Names -/

theorem mem_localNames_iff : name ∈ t.localNames id ↔ t.binds id name = true := by
  unfold localNames binds localSlot?
  cases t.context? id with
  | none => simp
  | some c => exact Register.mem_keys_iff

/-- A context names what it binds once. -/
theorem nodup_localNames (ht : t.WellFormed) (id : ContextId) : (t.localNames id).Nodup := by
  unfold localNames
  cases hc : t.context? id with
  | none => exact List.nodup_nil
  | some c => exact (ht.ordered id c hc).nodup_keys

/-- Some contexts name each name once for every one of them that binds it. -/
theorem count_flatMap_localNames (ht : t.WellFormed) (cs : List ContextId) (name : String) :
    (cs.flatMap t.localNames).count name = cs.countP (t.binds · name) := by
  induction cs with
  | nil => rfl
  | cons c cs ih =>
    have hown : (t.localNames c).count name = if t.binds c name = true then 1 else 0 := by
      rw [(nodup_localNames ht c).count]
      simp only [mem_localNames_iff]
    rw [List.flatMap_cons, List.count_append, ih, hown, List.countP_cons, Nat.add_comm]

theorem variableList_eq_ok (hid : t.Has id) :
    t.variableList id = .ok ((t.ancestors id).flatMap t.localNames) := by
  obtain ⟨c, hc⟩ := has_iff.1 hid
  exact bind_of_ok (context_eq_ok hc)

/-! ### The result -/

/-- Whatever tree a program has built, a listing passes the different contexts of a chain, and then,
up to the number of contexts in the tree, the contexts that further links lead to `again`. So it
names every name once for each context of the chain that binds it if and only if those bind nothing.
Where the chain ends, there are none. Where it goes round, there are some, and all of them are
contexts that were passed before. -/
theorem variableList_exact {w : World} (hw : w.Reachable) (hid : id ∈ w.tree.contextIds) :
    ∃ chain again, w.tree.Lists id chain ∧
      (∀ j, again[j]? = if chain.length + j < w.tree.contexts.length then
        w.tree.outward id (chain.length + j) else none) ∧
      w.tree.variableList id = .ok ((chain ++ again).flatMap w.tree.localNames) ∧
      (w.tree.variableList id = .ok (chain.flatMap w.tree.localNames) ↔
        ∀ c ∈ again, w.tree.localNames c = []) ∧
      (∀ name, (chain.flatMap w.tree.localNames).count name =
        chain.countP (w.tree.binds · name)) ∧
      ((∃ last, w.tree.EndsAt id last) → again = []) ∧
      ((∀ last, ¬ w.tree.EndsAt id last) → again ≠ [] ∧ ∀ c ∈ again, c ∈ chain) := by
  have ht : w.tree.WellFormed := hw.wellFormed.tree
  have hhas : w.tree.Has id := mem_contextIds.1 hid
  have hlists := lists_passed ht hhas
  obtain ⟨again, hagain⟩ := prefix_untilRepeat [] (w.tree.ancestors id)
  change passed w.tree id ++ again = w.tree.ancestors id at hagain
  have hplaces : ∀ j, again[j]? =
      if (passed w.tree id).length + j < w.tree.contexts.length then
        w.tree.outward id ((passed w.tree id).length + j) else none := by
    intro j
    rw [← getElem?_ancestors hhas, ← hagain, List.getElem?_append_right (Nat.le_add_right _ _),
      Nat.add_sub_cancel_left]
  have hlisting := variableList_eq_ok hhas
  rw [← hagain] at hlisting
  refine ⟨passed w.tree id, again, hlists, hplaces, hlisting, ?_,
    count_flatMap_localNames ht _, fun hends => ?_, fun hround => ⟨?_, fun c hc => ?_⟩⟩
  · rw [hlisting, Except.ok.injEq, List.flatMap_append, List.append_right_eq_self,
      List.flatMap_eq_nil_iff]
  · have hfirst := hplaces 0
    rw [Nat.add_zero, hlists.exists_endsAt_iff.1 hends, ite_self] at hfirst
    exact List.eq_nil_of_length_eq_zero (Nat.le_zero.1 (List.getElem?_eq_none_iff.1 hfirst))
  · rintro rfl
    have hfirst := hplaces 0
    rw [Nat.add_zero, if_pos (hlists.length_lt ht hhas hround)] at hfirst
    obtain ⟨last, hend⟩ := hlists.exists_endsAt_iff.2 hfirst.symm
    exact hround last hend
  · obtain ⟨j, hj⟩ := List.getElem?_of_mem hc
    rw [hplaces] at hj
    split at hj
    · exact hlists.all _ c hj
    · cases hj

/-- Three lies below the cycle of one and two. Further links lead to one and two again, until six
contexts have been passed, and one binds a name. -/
theorem variableList_exact_below_cycle :
    ∃ chain again, lasso.tree.Lists ⟨3⟩ chain ∧
      lasso.tree.variableList ⟨3⟩ = .ok ((chain ++ again).flatMap lasso.tree.localNames) ∧
      again ≠ [] ∧ ∀ c ∈ again, c ∈ chain := by
  have hround : ∀ last, ¬ lasso.tree.EndsAt ⟨3⟩ last :=
    (finds_of_inspect lasso_reachable.wellFormed.tree rfl).2.circular.1 rfl
  have hmem : ⟨3⟩ ∈ lasso.tree.contextIds := by decide
  obtain ⟨chain, again, hlists, -, hlisting, -, -, -, hagain⟩ :=
    variableList_exact lasso_reachable hmem
  exact ⟨chain, again, hlists, hlisting, hagain hround⟩

example : lasso.tree.variableList ⟨3⟩ = .ok ["", "kept", "lost", "far", "far"] := by decide

/-- A context that is its own parent lists twice what it binds. -/
theorem not_variableList_distinct :
    ¬ ∀ w : World, w.Reachable → ∀ id ∈ w.tree.contextIds, ∀ chain, w.tree.Lists id chain →
      w.tree.variableList id = .ok (chain.flatMap w.tree.localNames) := by
  intro hdistinct
  have hmem : ⟨1⟩ ∈ loop.tree.contextIds := by decide
  have hlists : loop.tree.Lists ⟨1⟩ [⟨1⟩] :=
    lists_passed loop_reachable.wellFormed.tree (mem_contextIds.1 hmem)
  have htwice : loop.tree.variableList ⟨1⟩ = .ok ["x", "x"] := rfl
  rw [hdistinct loop loop_reachable ⟨1⟩ hmem _ hlists] at htwice
  cases htwice

end Tree

end Offside.Scope
