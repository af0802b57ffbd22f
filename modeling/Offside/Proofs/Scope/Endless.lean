import Offside.Proofs.Scope.Lookup

/-!
# `Offside.Proofs.Scope.Endless`: chains that go round

A chain ends exactly if its links run out (`exists_endsAt_iff`), and then they do so within as
many links as the tree has contexts (`WellFormed.outward_eq_none`). On a chain that goes round they
never run out, but all they lead to is reached by fewer links than there are contexts.

`lookup_beyond` says what that means for look-ups that skip as many parents as the tree has
contexts, or more. Where the chain ends, they fail, because it is too short. Where it goes round,
nothing keeps the climb from going round as well, so they find what a look-up finds that skips fewer
parents.
-/

set_option autoImplicit false

namespace Offside.Scope

namespace Tree

variable {t : Tree} {id c : ContextId} {name : String} {n m : Nat}

/-! ### Ends and links -/

/-- A chain ends if and only if its links run out. -/
theorem exists_endsAt_iff : (∃ last, t.EndsAt id last) ↔ ∃ k, t.outward id k = none := by
  constructor
  · rintro ⟨last, hend⟩
    obtain ⟨⟨k, hk⟩, hroot⟩ := endsAt_iff_outward.1 hend
    refine ⟨k + 1, ?_⟩
    show (t.outward id k).bind t.parentOf = none
    rw [hk]
    exact hroot
  · rintro ⟨k, hk⟩
    induction k with
    | zero => cases hk
    | succ k ih =>
      cases hlast : t.outward id k with
      | none => exact ih hlast
      | some last =>
        have hroot : (t.outward id k).bind t.parentOf = none := hk
        rw [hlast] at hroot
        exact ⟨last, endsAt_iff_outward.2 ⟨⟨k, hlast⟩, hroot⟩⟩

/-- The links of a chain that ends run out within as many as there are contexts. -/
theorem WellFormed.outward_eq_none (h : t.WellFormed) (hid : t.Has id)
    (hends : ∃ last, t.EndsAt id last) (hn : t.contexts.length ≤ n) : t.outward id n = none := by
  obtain ⟨last, hend⟩ := hends
  obtain ⟨⟨k, hk⟩, hroot⟩ := endsAt_iff_outward.1 hend
  obtain ⟨j, -, hj, hjlast⟩ := h.exists_outward_lt hid hk
  have hbehind : t.outward id (j + 1) = none := by
    show (t.outward id j).bind t.parentOf = none
    rw [hjlast]
    exact hroot
  -- What so many links lead to would have to lie behind the end.
  cases hc : t.outward id n with
  | none => rfl
  | some c =>
    obtain ⟨d, hd⟩ := exists_outward_of_le hc (i := j + 1) (by omega)
    rw [hbehind] at hd
    cases hd

/-- On a chain that goes round, any number of links leads to where fewer links than there are
contexts have led. -/
theorem WellFormed.exists_outward_of_endless (h : t.WellFormed) (hid : t.Has id)
    (hround : ∀ last, ¬ t.EndsAt id last) (n : Nat) :
    ∃ c m, m < t.contexts.length ∧ t.outward id n = some c ∧ t.outward id m = some c := by
  cases hc : t.outward id n with
  | none =>
    obtain ⟨last, hend⟩ := exists_endsAt_iff.2 ⟨n, hc⟩
    exact absurd hend (hround last)
  | some c =>
    obtain ⟨m, -, hm, hmc⟩ := h.exists_outward_lt hid hc
    exact ⟨c, m, hm, rfl, hmc⟩

/-! ### Look-ups by their owner -/

theorem resolves_iff {owner : ContextId} {found : Slot} : t.Resolves id name n owner found ↔
    t.ownerOf id name n = .ok owner ∧ t.localSlot? owner name = some found :=
  ⟨fun h => ⟨h.ownerOf, h.bound⟩, fun h => resolves_of_ownerOf h.1 h.2⟩

theorem fails_iff {e : Error} : t.Fails id name n e ↔ t.ownerOf id name n = .error e :=
  ⟨fun h => h.ownerOf, fails_of_ownerOf⟩

/-- Where two climbs lead to the same context, look-ups from there find the same owner. -/
theorem ownerOf_congr (hn : t.nthParent id n = .ok c) (hm : t.nthParent id m = .ok c) :
    t.ownerOf id name n = t.ownerOf id name m := by
  unfold ownerOf
  rw [bind_of_ok hn, bind_of_ok hm]

/-! ### The result -/

/-- Let a look-up skip at least as many parents as the tree has contexts, whatever tree a program
has built. If the chain ends, it is too short for every such look-up. If the chain goes round, no
chain is too short: the climb goes round as well, and the look-up ends as one does that skips fewer
parents than there are contexts. -/
theorem lookup_beyond {w : Audit.World} (hw : w.Reachable) (hid : id ∈ w.tree.contextIds)
    (hn : w.tree.contexts.length ≤ n) :
    ((∃ last, w.tree.EndsAt id last) →
      w.tree.nthParent id n = .error (.chainTooShort id n) ∧
        ∀ name, w.tree.Fails id name n (.chainTooShort id n)) ∧
    ((∀ last, ¬ w.tree.EndsAt id last) →
      ∃ c m, m < w.tree.contexts.length ∧
        w.tree.nthParent id n = .ok c ∧ w.tree.nthParent id m = .ok c ∧
        (∀ name owner found,
          w.tree.Resolves id name n owner found ↔ w.tree.Resolves id name m owner found) ∧
        ∀ name e, w.tree.Fails id name n e ↔ w.tree.Fails id name m e) := by
  have ht : w.tree.WellFormed := hw.wellFormed.tree
  have hhas : w.tree.Has id := mem_contextIds.1 hid
  constructor
  · intro hends
    have hnth := nthParent_eq_error hhas (ht.outward_eq_none hhas hends hn)
    exact ⟨hnth, fun _ => fails_of_ownerOf (bind_of_error hnth)⟩
  · intro hround
    obtain ⟨c, m, hm, hnc, hmc⟩ := ht.exists_outward_of_endless hhas hround n
    have hfar := nthParent_eq_ok hhas hnc
    have hnear := nthParent_eq_ok hhas hmc
    refine ⟨c, m, hm, hfar, hnear, fun name owner found => ?_, fun name e => ?_⟩
    · rw [resolves_iff, resolves_iff, ownerOf_congr hfar hnear]
    · rw [fails_iff, fails_iff, ownerOf_congr hfar hnear]

/-- A tree of two contexts, in which the one beside the global context binds a name and is its own
parent. -/
def loop : Audit.World :=
  Audit.World.after {}
    [.createContext .global, .addVariable ⟨1⟩ "x" .everyone (.integer 1),
      .reparent ⟨1⟩ (some ⟨1⟩)]

theorem loop_reachable : loop.Reachable := ⟨_, rfl⟩

/-- The links of a context that is its own parent never run out. -/
theorem loop_endless (last : ContextId) : ¬ loop.tree.EndsAt ⟨1⟩ last := by
  refine not_endsAt_of_closed (p := (· = ⟨1⟩)) ?_ rfl
  rintro c rfl
  exact ⟨⟨1⟩, rfl, rfl⟩

/-- The global context has no parents to skip, and the other one has any number. -/
theorem lookup_beyond_loop :
    loop.tree.nthParent .global 2 = .error (.chainTooShort .global 2) ∧
      ∃ c m, m < 2 ∧ loop.tree.nthParent ⟨1⟩ 2 = .ok c ∧ loop.tree.nthParent ⟨1⟩ m = .ok c := by
  have hglobal : loop.tree.EndsAt .global .global := .root rfl
  have hids (id : ContextId) (h : id = .global ∨ id = ⟨1⟩) : id ∈ loop.tree.contextIds := by
    rcases h with rfl | rfl <;> decide
  have hlength : loop.tree.contexts.length ≤ 2 := by decide
  obtain ⟨c, m, hm, hfar, hnear, -⟩ :=
    (lookup_beyond loop_reachable (hids ⟨1⟩ (.inr rfl)) hlength).2 loop_endless
  exact ⟨((lookup_beyond loop_reachable (hids .global (.inl rfl)) hlength).1 ⟨_, hglobal⟩).1,
    c, m, hm, hfar, hnear⟩

/-- As many links as there are contexts lead from the loop to a context, and to what it binds. -/
theorem not_lookup_fails_beyond :
    ¬ (∀ w : Audit.World, w.Reachable → ∀ id ∈ w.tree.contextIds, ∀ n,
      w.tree.contexts.length ≤ n →
        w.tree.nthParent id n = .error (.chainTooShort id n)) ∧
    ¬ ∀ w : Audit.World, w.Reachable → ∀ id ∈ w.tree.contextIds, ∀ name n,
      w.tree.contexts.length ≤ n →
        w.tree.getVariable id name n = .error (.chainTooShort id n) := by
  have hmem : ⟨1⟩ ∈ loop.tree.contextIds := by decide
  have hlength : loop.tree.contexts.length ≤ 2 := by decide
  constructor
  · intro hshort
    have hfound : loop.tree.nthParent ⟨1⟩ 2 = .ok ⟨1⟩ := rfl
    rw [hshort loop loop_reachable ⟨1⟩ hmem 2 hlength] at hfound
    cases hfound
  · intro hshort
    have hfound : loop.tree.getVariable ⟨1⟩ "x" 2 = .ok (.integer 1) := rfl
    rw [hshort loop loop_reachable ⟨1⟩ hmem "x" 2 hlength] at hfound
    cases hfound

end Tree

end Offside.Scope
