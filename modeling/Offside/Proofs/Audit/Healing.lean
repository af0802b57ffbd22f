import Offside.Proofs.Audit.Restoring

/-!
# `Offside.Proofs.Audit.Healing`: repairing a whole log

The repairs of a log are made from reports that were taken before any of them, and each makes
the others stale. What one entry does to a world is `World.settle`. Two entries can be settled
in either order (`World.settle_comm`), since mending changes each context on its own, and an
entry survives until it is settled itself. So repairing the keys of a log one after another never
fails and ends in the same world in every order (`repairEach_perm`).

`Healed` holds what a run of repairs has done to a tree: contexts came to hang below the global
one, bindings went, and what the entries asked for is done, since no later repair undoes it
(`Mended.mono`). Where every unsound context had an entry that was up to date, nothing unsound is
left (`Healed.sound`), and verifying all contexts makes it so (`verifyEach_eq_ok`). This is
`verifyEach_repairAll`.
-/

set_option autoImplicit false

namespace Offside.Audit

open Offside.Scope Effect

/-! ### Settling one entry -/

/-- The world where the entry of the log about a context, if there is one, has been mended and
cleared. -/
def World.settle (w : World) (id : ContextId) : World where
  tree := (w.log.find? id).elim w.tree (fun r => r.amend id w.tree)
  log := w.log.erase id

namespace World

variable {w : World} {id : ContextId} {r : Report}

theorem settle_of_logged (h : w.log.find? id = some r) :
    w.settle id = { tree := r.amend id w.tree, log := w.log.erase id } := by
  rw [settle, h, Option.elim_some]

theorem settle_of_not_logged (h : w.log.find? id = none) : w.settle id = w := by
  rw [settle, h, Option.elim_none, Register.erase_eq_self h]

theorem find?_settle (w : World) (id c : ContextId) :
    (w.settle id).log.find? c = if c = id then none else w.log.find? c :=
  Register.find?_erase w.log id c

theorem WellFormed.settle (h : w.WellFormed) (id : ContextId) : (w.settle id).WellFormed := by
  cases hlog : w.log.find? id with
  | none =>
    rw [settle_of_not_logged hlog]
    exact h
  | some r =>
    rw [settle_of_logged hlog]
    exact (h.amend r id).clear id

/-- Two entries can be settled in either order. -/
theorem settle_comm (w : World) (i j : ContextId) :
    (w.settle i).settle j = (w.settle j).settle i := by
  by_cases hij : i = j
  · rw [hij]
  have hi : (w.log.erase j).find? i = w.log.find? i := by rw [Register.find?_erase, if_neg hij]
  have hj : (w.log.erase i).find? j = w.log.find? j := by
    rw [Register.find?_erase, if_neg fun h => hij h.symm]
  simp only [settle, hi, hj, World.mk.injEq]
  constructor
  · cases w.log.find? i with
    | none => rfl
    | some r =>
      cases w.log.find? j with
      | none => rfl
      | some s => exact Report.amend_comm s r j i w.tree
  · simp only [Register.erase, List.filter_filter, Bool.and_comm]

end World

/-! ### Settling one entry after another -/

theorem repair_eq_settle {w : World} (hw : w.WellFormed) {id : ContextId}
    (hid : id ∈ w.log.keys) : repair id w = .ok true (w.settle id) := by
  obtain ⟨r, hr⟩ := Option.isSome_iff_exists.1 (Register.mem_keys_iff.1 hid)
  rw [repair_of_logged hw.tree hr (hw.logged id r hr), World.settle_of_logged hr]

theorem repairEach_eq_settle {w : World} (hw : w.WellFormed) {ids : List ContextId}
    (hnodup : ids.Nodup) (hids : ∀ id ∈ ids, id ∈ w.log.keys) :
    repairEach ids w = .ok ids.length (ids.foldl World.settle w) := by
  induction ids generalizing w with
  | nil => rfl
  | cons id ids ih =>
    obtain ⟨hid, hnodup⟩ := List.nodup_cons.1 hnodup
    -- The other entries are still there.
    have hrest : ∀ c ∈ ids, c ∈ (w.settle id).log.keys := by
      intro c hc
      have hne : c ≠ id := fun heq => hid (heq ▸ hc)
      rw [Register.mem_keys_iff, World.find?_settle, if_neg hne, ← Register.mem_keys_iff]
      exact hids c (List.mem_cons_of_mem id hc)
    rw [repairEach, bind_eq_of_ok (repair_eq_settle hw (hids id List.mem_cons_self)),
      bind_eq_of_ok (ih (hw.settle id) hnodup hrest)]
    rfl

theorem find?_foldl_settle (w : World) (ids : List ContextId) (c : ContextId) :
    (ids.foldl World.settle w).log.find? c = if c ∈ ids then none else w.log.find? c := by
  induction ids generalizing w with
  | nil => rw [List.foldl_nil, if_neg List.not_mem_nil]
  | cons id ids ih =>
    rw [List.foldl_cons, ih, World.find?_settle]
    by_cases hid : c = id
    · rw [if_pos hid, ite_self, if_pos (hid ▸ List.mem_cons_self)]
    · simp only [List.mem_cons, hid, false_or, if_false]

/-- No entry is left when all have been settled. -/
theorem log_foldl_settle (w : World) : (w.log.keys.foldl World.settle w).log = {} := by
  refine Register.eq_empty_of_find? fun c => ?_
  rw [find?_foldl_settle]
  split
  · rfl
  · rename_i hc
    rw [Register.mem_keys_iff, Option.not_isSome_iff_eq_none] at hc
    exact hc

theorem foldl_settle_perm (w : World) {ids ids' : List ContextId} (h : ids.Perm ids') :
    ids.foldl World.settle w = ids'.foldl World.settle w :=
  h.foldl_eq' (fun i _ j _ w => World.settle_comm w i j) w

theorem repairAll_eq_settle {w : World} (hw : w.WellFormed) :
    repairAll w = .ok w.log.keys.length (w.log.keys.foldl World.settle w) :=
  repairEach_eq_settle hw hw.ordered.nodup_keys fun _ h => h

/-- Every context occurs at most once in the log of a reachable world, and repairing the contexts
of the log one after another mends all of them and ends in the same world in whatever order they
are taken. -/
theorem repairEach_perm {w : World} (hw : w.Reachable) :
    w.log.keys.Nodup ∧ ∃ t, repairAll w = .ok w.log.keys.length { tree := t, log := {} } ∧
      ∀ ids, ids.Perm w.log.keys →
        repairEach ids w = .ok w.log.keys.length { tree := t, log := {} } := by
  have hwell := hw.wellFormed
  have hnodup : w.log.keys.Nodup := hwell.ordered.nodup_keys
  have hend : { tree := (w.log.keys.foldl World.settle w).tree, log := {} } =
      w.log.keys.foldl World.settle w := by
    rw [← log_foldl_settle w]
  refine ⟨hnodup, (w.log.keys.foldl World.settle w).tree, ?_, fun ids hperm => ?_⟩
  · rw [hend]
    exact repairAll_eq_settle hwell
  · rw [hend, ← foldl_settle_perm w hperm, ← hperm.length_eq]
    exact repairEach_eq_settle hwell (hperm.nodup_iff.2 hnodup) fun id hid => hperm.mem_iff.1 hid

/-- The entry about five asks to hang four, which hangs below three by then, and that about three
asks to hang three. -/
theorem repairEach_perm_stale :
    (tangle.after [.verify ⟨3⟩]).log.keys.Nodup ∧
      ∃ t, repairAll (tangle.after [.verify ⟨3⟩]) = .ok 2 { tree := t, log := {} } ∧
        ∀ ids, ids.Perm [⟨3⟩, ⟨5⟩] →
          repairEach ids (tangle.after [.verify ⟨3⟩]) = .ok 2 { tree := t, log := {} } :=
  repairEach_perm (tangle_reachable.after [.verify ⟨3⟩])

/-! ### What settling does to a tree -/

/-- What has become of the tree of a world when the entries about some contexts were settled. -/
structure Healed (w : World) (ids : List ContextId) (t : Tree) : Prop where
  /-- Contexts have come to hang below the global one. -/
  rehung : w.tree.Rehung t
  /-- Nothing more is bound. -/
  fewer : ∀ c, t.bindingsOf c ⊆ w.tree.bindingsOf c
  /-- What the entries asked for has been done. -/
  mended : ∀ id ∈ ids, ∀ r, w.log.find? id = some r → Mended t id r
  /-- There are the same contexts. -/
  contexts : t.contextIds = w.tree.contextIds

namespace Healed

variable {w : World} {ids : List ContextId} {t : Tree}

theorem nil (hw : w.WellFormed) : Healed w [] w.tree where
  rehung := ⟨hw.tree.rootless, fun _ => .inl rfl⟩
  fewer _ := List.Subset.refl _
  mended _ h := nomatch h
  contexts := rfl

/-- Settling one entry more, before the others. -/
theorem cons (hw : w.WellFormed) (id : ContextId) (h : Healed (w.settle id) ids t) :
    Healed w (id :: ids) t := by
  have hlater : ∀ c ∈ id :: ids, c ≠ id → ∀ s, w.log.find? c = some s → Mended t c s := by
    intro c hc hne s hs
    refine h.mended c ((List.mem_cons.1 hc).resolve_left hne) s ?_
    rw [World.find?_settle, if_neg hne, hs]
  cases hlog : w.log.find? id with
  | none =>
    rw [World.settle_of_not_logged hlog] at h
    refine ⟨h.rehung, h.fewer, fun c hc s hs => hlater c hc ?_ s hs, h.contexts⟩
    rintro rfl
    rw [hlog] at hs
    cases hs
  | some r =>
    rw [World.settle_of_logged hlog] at h
    refine ⟨(rehung_amend hw.tree).trans h.rehung,
      fun c => List.Subset.trans (h.fewer c) (bindingsOf_amend_subset r id w.tree c),
      fun c hc s hs => ?_, h.contexts.trans contextIds_amend⟩
    by_cases heq : c = id
    -- What the first entry asked for was done before the others were settled.
    · rw [heq, hlog] at hs
      cases hs
      rw [heq]
      exact (mended_amend (hw.logged id r hlog)).mono h.rehung (h.fewer id)
    · exact hlater c hc heq s hs

theorem foldl_settle (hw : w.WellFormed) (ids : List ContextId) :
    Healed w ids (ids.foldl World.settle w).tree := by
  induction ids generalizing w with
  | nil => exact .nil hw
  | cons id ids ih => exact .cons hw id (ih (hw.settle id))

end Healed

/-! ### Healing a tree -/

/-- If a context is not sound, the log says what an inspection finds now. -/
def World.UpToDate (w : World) (id : ContextId) : Prop :=
  ∀ r, inspect w.tree id = .ok r → r.isValid = false → w.log.find? id = some r

/-- If a context was sound or what was found wrong with it has been settled, it is sound. -/
theorem Healed.sound {w : World} {t : Tree} (hw : w.WellFormed)
    (h : Healed w w.log.keys t) {id : ContextId} (hid : w.tree.Has id)
    (hlog : w.UpToDate id) : Sound t id := by
  obtain ⟨r, hr, hfinds⟩ := inspect_eq_ok hw.tree hid
  cases hvalid : r.isValid with
  | true =>
    have hsound := hfinds.isValid_iff.1 hvalid
    exact ⟨hsound.rooted.rehung_global h.rehung (.inl rfl),
      fun e he => hsound.bindings e (h.fewer id he)⟩
  | false =>
    have hfound := hlog r hr hvalid
    have hkey : id ∈ w.log.keys := by
      rw [Register.mem_keys_iff, hfound]
      rfl
    exact hfinds.sound_of_mended hw.tree h.rehung (h.fewer id) (h.mended id hkey r hfound)

/-- Verifying a context brings the log up to date about it, and never puts it out of date about
another. -/
theorem verify_upToDate {w : World} (hw : w.WellFormed) {id : ContextId} (hid : w.tree.Has id) :
    ∃ sound w', verify id w = .ok sound w' ∧ w'.WellFormed ∧ w'.tree = w.tree ∧
      ∀ c, c = id ∨ w.UpToDate c → w'.UpToDate c := by
  obtain ⟨r, hr, hvalid, h⟩ | ⟨r, hr, -, hfits, h⟩ | ⟨hno, -⟩ := verify_cases hw id
  · refine ⟨true, w, h, hw, rfl, fun c hc => ?_⟩
    rcases hc with rfl | hc
    · intro s hs hinvalid
      cases hr.symm.trans hs
      rw [hvalid] at hinvalid
      cases hinvalid
    · exact hc
  · refine ⟨false, _, h, hw.record hfits, rfl, fun c hc s hs hinvalid => ?_⟩
    rw [Register.find?_insert]
    split
    · rename_i heq
      rw [heq] at hs
      cases hr.symm.trans hs
      rfl
    · rename_i hne
      exact hc.resolve_left hne s hs hinvalid
  · exact absurd hid hno

/-- Verifying several contexts brings the log up to date about all of them. -/
theorem verifyEach_eq_ok {w : World} (hw : w.WellFormed) {ids : List ContextId}
    (hids : ∀ id ∈ ids, w.tree.Has id) :
    ∃ answers w', ids.mapM verify w = .ok answers w' ∧ w'.WellFormed ∧ w'.tree = w.tree ∧
      ∀ c, c ∈ ids ∨ w.UpToDate c → w'.UpToDate c := by
  induction ids generalizing w with
  | nil =>
    exact ⟨[], w, rfl, hw, rfl, fun c hc => hc.resolve_left List.not_mem_nil⟩
  | cons id ids ih =>
    obtain ⟨sound, w', hverify, hw', htree', hupdate'⟩ :=
      verify_upToDate hw (hids id List.mem_cons_self)
    have hrest : ∀ c ∈ ids, w'.tree.Has c := by
      rw [htree']
      exact fun c hc => hids c (List.mem_cons_of_mem id hc)
    obtain ⟨answers, w'', hmap, hw'', htree'', hupdate''⟩ := ih hw' hrest
    refine ⟨sound :: answers, w'', ?_, hw'', htree''.trans htree', fun c hc => hupdate'' c ?_⟩
    · rw [List.mapM_cons, bind_eq_of_ok hverify, bind_eq_of_ok hmap]
      rfl
    · rcases hc with hc | hc
      · rcases List.mem_cons.1 hc with heq | hc
        · exact .inr (hupdate' c (.inl heq))
        · exact .inl hc
      · exact .inr (hupdate' c (.inr hc))

/-- Whatever a program has built and whatever the log says of it, after every context has been
verified, in whatever order, repairing the log mends all it has entries about and leaves nothing
unsound. -/
theorem verifyEach_repairAll {w : World} (hw : w.Reachable) {order : List ContextId}
    (horder : ∀ id, id ∈ order ↔ id ∈ w.tree.contextIds) :
    ∃ answers w₁ w₂, order.mapM verify w = .ok answers w₁ ∧
      repairAll w₁ = .ok w₁.log.keys.length w₂ ∧ w₂.log = {} ∧
      w₂.tree.contextIds = w.tree.contextIds ∧
      ∀ id ∈ w₂.tree.contextIds, ∃ r, inspect w₂.tree id = .ok r ∧ r.isValid = true := by
  have hids : ∀ id ∈ order, w.tree.Has id := fun id hid =>
    Tree.mem_contextIds.1 ((horder id).1 hid)
  obtain ⟨answers, w₁, hverify, hw₁, htree, hupdate⟩ := verifyEach_eq_ok hw.wellFormed hids
  have hhealed := Healed.foldl_settle hw₁ w₁.log.keys
  have hwell : (w₁.log.keys.foldl World.settle w₁).WellFormed := by
    have hkept := repairAll_keeps w₁ hw₁
    rw [repairAll_eq_settle hw₁] at hkept
    exact hkept
  refine ⟨answers, w₁, _, hverify, repairAll_eq_settle hw₁, log_foldl_settle w₁,
    hhealed.contexts.trans (by rw [htree]), fun id hid => ?_⟩
  have hbefore : id ∈ w.tree.contextIds := by
    rw [hhealed.contexts, htree] at hid
    exact hid
  have hhas : w₁.tree.Has id := by
    rw [htree]
    exact Tree.mem_contextIds.1 hbefore
  refine (inspect_isValid_iff hwell.tree).2 ⟨Tree.mem_contextIds.1 hid, ?_⟩
  exact hhealed.sound hw₁ hhas (hupdate id (.inl ((horder id).2 hbefore)))

theorem verifyEach_repairAll_stale :
    ∃ answers w₁ w₂, tangle.tree.contextIds.reverse.mapM verify tangle = .ok answers w₁ ∧
      repairAll w₁ = .ok w₁.log.keys.length w₂ ∧ w₂.log = {} ∧
      w₂.tree.contextIds = tangle.tree.contextIds ∧
      ∀ id ∈ w₂.tree.contextIds, ∃ r, inspect w₂.tree id = .ok r ∧ r.isValid = true :=
  verifyEach_repairAll tangle_reachable fun _ => List.mem_reverse

end Offside.Audit
