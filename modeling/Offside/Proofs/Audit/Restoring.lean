import Offside.Proofs.Audit.Effects

/-!
# `Offside.Proofs.Audit.Restoring`: what a repair restores

A report that an inspection finds says where the chain of its context ends, and so hangs at most
one context below the global one: the context itself if the chain has no end, and otherwise the
end, unless that is the global context already. Either way the chain then ends at the global
context (`Finds.endsAt_global`), also if other contexts come to hang there as well.

The names such a report asks to remove are the empty one and those that are bound to null
(`Finds.not_mem_badNames_iff`), where it matters that no name is bound twice.

`Mended` says that what a report asks for has been done, which is enough for the context to be
sound (`Finds.sound_of_mended`). `repair_restores` puts this together: a repair after an
up-to-date report, or after none, makes the context sound and changes nothing else (`Restores`).
-/

set_option autoImplicit false

namespace Offside.Audit

open Offside.Scope

/-- One tree is another one in which a context was made sound, without changing more than that
takes. -/
structure Restores (t t' : Tree) (id : ContextId) : Prop where
  /-- The context is sound now. -/
  valid : ∃ r, inspect t' id = .ok r ∧ r.isValid = true
  /-- It binds what it did, but for the empty name and null. -/
  kept : t'.bindingsOf id =
    (t.bindingsOf id).filter (fun e => e.1 ≠ "" ∧ e.2.value.isNull = false)
  /-- Other contexts bind what they did. -/
  others : ∀ c, c ≠ id → t'.bindingsOf c = t.bindingsOf c
  /-- At most one context has come to hang below the global one, and no other link changed. -/
  link : ∃ x, ∀ c, t'.parentOf c = t.parentOf c ∨ c = x ∧ t'.parentOf c = some .global
  /-- No link changed if the chain ended at the global context before. -/
  rooted : t.EndsAt id .global → ∀ c, t'.parentOf c = t.parentOf c
  /-- There are the same contexts. -/
  contexts : t'.contextIds = t.contextIds
  /-- They run the same scripts and belong to the same groups. -/
  homes : ∀ c, t'.scriptOf c = t.scriptOf c ∧ t'.groupOf c = t.groupOf c
  /-- There are the same scripts. -/
  scripts : t'.scripts = t.scripts
  /-- There are the same groups. -/
  groups : t'.groups = t.groups

section

variable {t t' : Tree} {id : ContextId} {r : Report}

/-- No name is bound twice. -/
theorem nodup_bindingsOf (ht : t.WellFormed) (id : ContextId) :
    ((t.bindingsOf id).map Prod.fst).Nodup := by
  rw [Tree.bindingsOf]
  cases hc : t.context? id with
  | none => exact List.nodup_nil
  | some c => exact (ht.ordered id c hc).nodup_keys

namespace Finds

/-- The names that are not to be removed are those that are not empty and not bound to null. -/
theorem not_mem_badNames_iff (h : Finds t id r) (ht : t.WellFormed) {e : String × Slot}
    (he : e ∈ t.bindingsOf id) :
    e.1 ∉ r.badNames ↔ e.1 ≠ "" ∧ e.2.value.isNull = false := by
  have hname : e.1 ∈ (if r.emptyName then [""] else []) ↔ e.1 = "" := by
    constructor
    · intro hmem
      split at hmem
      · exact List.mem_singleton.1 hmem
      · cases hmem
    · intro heq
      rw [if_pos (h.emptyName.2 (heq ▸ List.mem_map_of_mem he))]
      exact List.mem_singleton.2 heq
  have hnull : e.1 ∈ r.nullNames ↔ e.2.value.isNull = true := by
    rw [h.nullNames, List.mem_map]
    constructor
    · rintro ⟨d, hd, heq⟩
      obtain ⟨hd, hnull⟩ := List.mem_filter.1 hd
      exact List.inj_on_of_nodup_map (nodup_bindingsOf ht id) hd he heq ▸ hnull
    · intro hnull
      exact ⟨e, List.mem_filter.2 ⟨he, hnull⟩, rfl⟩
  rw [Report.badNames, List.mem_append, hname, hnull, not_or, Bool.not_eq_true]

/-- A chain has no end or one, so at most one context hangs. -/
theorem hangs_unique (h : Finds t id r) : ∃ x, ∀ c, r.Hangs id c → c = x := by
  cases hlast : r.finalParent with
  | none =>
    refine ⟨id, fun c hc => ?_⟩
    rcases hc.2 with hend | ⟨-, heq⟩
    · rw [hlast] at hend
      cases hend
    · exact heq
  | some last =>
    refine ⟨last, fun c hc => ?_⟩
    rcases hc.2 with hend | ⟨hcircular, -⟩
    · rw [hlast] at hend
      exact (Option.some.inj hend).symm
    · exact absurd ((h.finalParent last).1 hlast) (h.circular.1 hcircular last)

theorem not_hangs_of_endsAt_global (h : Finds t id r) (hend : t.EndsAt id .global)
    (c : ContextId) : ¬ r.Hangs id c := by
  rintro ⟨hne, hc | ⟨hcircular, -⟩⟩
  · exact hne (hend.unique ((h.finalParent c).1 hc))
  · exact h.circular.1 hcircular .global hend

/-- What the report hangs is enough for the chain to end at the global context, whatever else
comes to hang there. -/
theorem endsAt_global (h : Finds t id r) (ht : t.WellFormed) (hre : t.Rehung t')
    (hhung : ∀ c, r.Hangs id c → t'.parentOf c = some .global) : t'.EndsAt id .global := by
  by_cases hend : ∃ last, t.EndsAt id last
  · obtain ⟨last, hend⟩ := hend
    refine hend.rehung_global hre ?_
    by_cases hglobal : last = .global
    · exact .inl hglobal
    · exact .inr (hhung last ⟨hglobal, .inl ((h.finalParent last).2 hend)⟩)
  · have hcircular : r.circular = true := h.circular.2 (not_exists.1 hend)
    have hne : id ≠ .global := fun heq => hend ⟨id, .root (heq ▸ ht.rootless)⟩
    exact Tree.endsAt_global_of_parentOf hre.rootless (hhung id ⟨hne, .inr ⟨hcircular, rfl⟩⟩)

end Finds

theorem homes_amend (r : Report) (id : ContextId) (t : Tree) (c : ContextId) :
    (r.amend id t).scriptOf c = t.scriptOf c ∧ (r.amend id t).groupOf c = t.groupOf c := by
  simp only [Tree.scriptOf, Tree.groupOf, context?_amend]
  cases t.context? c with
  | none => exact ⟨rfl, rfl⟩
  | some x => exact ⟨rfl, rfl⟩

/-! ### What mending is good for -/

/-- What a report about a context asks for has been done. -/
structure Mended (t : Tree) (id : ContextId) (r : Report) : Prop where
  /-- What it asks to hang hangs below the global context. -/
  hung : ∀ c, r.Hangs id c → t.parentOf c = some .global
  /-- The names it asks to remove are gone. -/
  cleaned : ∀ e ∈ t.bindingsOf id, e.1 ∉ r.badNames

/-- What a report asks to hang exists, if the report fits. -/
theorem Report.Fits.has_of_hangs (h : r.Fits t id) {c : ContextId} (hc : r.Hangs id c) :
    t.Has c := by
  rcases hc.2 with hlast | ⟨-, rfl⟩
  · exact h.finalParent c hlast
  · exact h.about

theorem mended_amend (h : r.Fits t id) : Mended (r.amend id t) id r where
  hung _ hc := parentOf_amend_of_hangs (h.has_of_hangs hc) hc
  cleaned e he := by
    rw [bindingsOf_amend_self] at he
    exact of_decide_eq_true (List.mem_filter.1 he).2

/-- What has been done stays done if more contexts come to hang below the global one and more
names are removed. -/
theorem Mended.mono (h : Mended t id r) (hre : t.Rehung t')
    (hfewer : t'.bindingsOf id ⊆ t.bindingsOf id) : Mended t' id r where
  hung c hc := (hre.link c).elim (fun hsame => hsame.trans (h.hung c hc)) fun hglobal => hglobal
  cleaned e he := h.cleaned e (hfewer he)

/-- Once what an inspection found has been mended, the context is sound, whatever else has come to
hang below the global context or been removed. -/
theorem Finds.sound_of_mended (h : Finds t id r) (ht : t.WellFormed) (hre : t.Rehung t')
    (hfewer : t'.bindingsOf id ⊆ t.bindingsOf id) (hmended : Mended t' id r) : Sound t' id where
  rooted := h.endsAt_global ht hre hmended.hung
  bindings e he := (h.not_mem_badNames_iff ht (hfewer he)).1 (hmended.cleaned e he)

/-- Mending what an inspection found makes the context sound. -/
theorem Finds.restores (h : Finds t id r) (ht : t.WellFormed) (hid : t.Has id) :
    Restores t (r.amend id t) id where
  valid := by
    have hmended := mended_amend (h.fits ht hid)
    refine (inspect_isValid_iff (wellFormed_amend ht)).2 ⟨has_amend.2 hid, ?_⟩
    exact h.sound_of_mended ht (rehung_amend ht) (bindingsOf_amend_subset r id t id) hmended
  kept := by
    rw [bindingsOf_amend_self]
    refine List.filter_congr fun e he => ?_
    rw [decide_eq_decide, h.not_mem_badNames_iff ht he]
  others c hc := bindingsOf_amend_of_ne hc
  link := by
    obtain ⟨x, hx⟩ := h.hangs_unique
    refine ⟨x, fun c => ?_⟩
    by_cases hc : r.Hangs id c
    · exact .inr ⟨hx c hc, (mended_amend (h.fits ht hid)).hung c hc⟩
    · exact .inl (parentOf_amend_of_not_hangs hc)
  rooted hend c := parentOf_amend_of_not_hangs (h.not_hangs_of_endsAt_global hend c)
  contexts := contextIds_amend
  homes c := homes_amend r id t c
  scripts := rfl
  groups := rfl

/-- A sound context needs no change. -/
theorem Sound.restores (h : Sound t id) (ht : t.WellFormed) (hid : t.Has id) :
    Restores t t id where
  valid := (inspect_isValid_iff ht).2 ⟨hid, h⟩
  kept := (List.filter_eq_self.2 fun e he => decide_eq_true (h.bindings e he)).symm
  others _ _ := rfl
  link := ⟨id, fun _ => .inl rfl⟩
  rooted _ _ := rfl
  contexts := rfl
  homes _ := ⟨rfl, rfl⟩
  scripts := rfl
  groups := rfl

end

/-- Whatever tree a program has built, repairing one of its contexts makes that context sound and
changes nothing else, if what the log says about it is up to date, or nothing. -/
theorem repair_restores {w : World} (hw : w.Reachable) {id : ContextId}
    (hid : id ∈ w.tree.contextIds) {log : Register ContextId Report}
    (hlog : ∀ r, log.find? id = some r → inspect w.tree id = .ok r) :
    ∃ done w', repair id { w with log } = .ok done w' ∧ Restores w.tree w'.tree id := by
  have ht : w.tree.WellFormed := hw.wellFormed.tree
  have hhas : w.tree.Has id := Tree.mem_contextIds.1 hid
  obtain ⟨r, hr, hfinds⟩ := inspect_eq_ok ht hhas
  have hmended := hfinds.restores ht hhas
  cases hfound : log.find? id with
  | some s =>
    have hsame := hr.symm.trans (hlog s hfound)
    cases hsame
    exact ⟨true, _, repair_of_logged ht hfound (hfinds.fits ht hhas), hmended⟩
  | none =>
    cases hvalid : r.isValid with
    | true =>
      have hsound := hfinds.isValid_iff.1 hvalid
      exact ⟨false, _, repair_of_sound hfound hr hvalid, hsound.restores ht hhas⟩
    | false =>
      exact ⟨true, _, repair_of_unsound ht hfound hr hvalid (hfinds.fits ht hhas), hmended⟩

/-- Contexts one and two are each other's parents and three hangs below them. Four is detached,
five hangs below four, and the log has an entry about five from before four came to hang below
three. Three and five bind names that they should not. -/
def tangle : World :=
  World.after {}
    [.createContext .global, .createContext ⟨1⟩, .createContext ⟨2⟩, .createDetached,
      .createContext ⟨4⟩, .addVariable ⟨3⟩ "" .everyone (.integer 1),
      .addVariable ⟨3⟩ "lost" .owner .null, .addVariable ⟨3⟩ "kept" .owner (.integer 2),
      .addVariable ⟨5⟩ "" .everyone .null, .verify ⟨5⟩, .reparent ⟨1⟩ (some ⟨2⟩),
      .reparent ⟨4⟩ (some ⟨3⟩)]

theorem tangle_reachable : tangle.Reachable := ⟨_, rfl⟩

theorem repair_restores_below_cycle :
    ∃ done w', repair ⟨3⟩ tangle = .ok done w' ∧ Restores tangle.tree w'.tree ⟨3⟩ :=
  repair_restores tangle_reachable (by decide) (fun _ h => nomatch h)

-- Three hangs below the global context now, and the contexts it hung below still go round.
example : (tangle.after [.repair ⟨3⟩]).tree.contexts.map (·.parent) =
    [none, some ⟨2⟩, some ⟨1⟩, some .global, some ⟨3⟩, some ⟨4⟩] := rfl

end Offside.Audit
