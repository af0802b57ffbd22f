import Offside.Proofs.Audit.History
import Offside.Proofs.Scope.Growth

/-!
# `Offside.Proofs.Audit.Rooted`: chains that never break

Two operations link contexts without a look at where their chains lead: one opens a scope that hangs
nowhere, the other gives a context any parent it is asked to. A run that uses neither never breaks a
chain. Links lead to smaller numbers all along, so every chain ends at the global context, and an
inspection has nothing to say about it.

The audit takes part in this. A repair hangs contexts below the global one when its report asks for
that, and that report may be older than the tree. But no report of such a run ever asks for it
(`World.Anchored`), so that a repair changes no link (`extends_amend`).

If no context is hung below the global one on request either, no link ever changes
(`World.Anchored.extends_after`), and the scopes of groups hang as the groups lie. `after_rooted` is
the result for every such run.
-/

set_option autoImplicit false

namespace Offside.Audit

open Offside.Scope Effect

variable {w : World} {op : Operation} {t : Tree} {id c : ContextId} {r : Report}

/-! ### Reports about chains -/

/-- The report says that the chain is not circular and that it ends at the global context. -/
def Report.IsRooted (r : Report) : Prop := r.circular = false ∧ r.endsElsewhere = false

/-- Such a report asks to hang nothing. -/
theorem Report.IsRooted.not_hangs (h : r.IsRooted) : ¬ r.Hangs id c := by
  obtain ⟨hcircular, helse⟩ := h
  rintro ⟨hne, hlast | ⟨hround, -⟩⟩
  · rw [Report.endsElsewhere, hlast, Option.any_some] at helse
    exact hne (by simpa using helse)
  · rw [hcircular] at hround
    cases hround

/-- Mending it changes no link. -/
theorem extends_amend (h : r.IsRooted) (id : ContextId) (t : Tree) : t.Extends (r.amend id t) :=
  Tree.extends_of_parentOf_eq (fun _ => has_amend.1)
    (fun _ => parentOf_amend_of_not_hangs h.not_hangs) fun _ => rfl

/-! ### Anchored worlds -/

/-- All links lead to smaller numbers, and nothing in the log says otherwise. -/
structure World.Anchored (w : World) : Prop where
  /-- The world is well formed. -/
  wellFormed : w.WellFormed
  /-- Links lead to smaller numbers. -/
  descending : w.tree.Descending
  /-- The log complains about no chain. -/
  logged : ∀ id r, w.log.find? id = some r → r.IsRooted

namespace World

theorem anchored_new : Anchored {} where
  wellFormed := wellFormed_new
  descending := Tree.descending_new
  logged _ _ h := nomatch h

namespace Anchored

theorem endsAt_global (h : w.Anchored) (hid : w.tree.Has id) : w.tree.EndsAt id .global :=
  h.descending.endsAt_global h.wellFormed.tree.rootless hid

/-- An inspection complains about no chain. -/
theorem isRooted_of_inspect (h : w.Anchored) (hr : inspect w.tree id = .ok r) : r.IsRooted := by
  obtain ⟨hid, hfinds⟩ := finds_of_inspect h.wellFormed.tree hr
  exact hfinds.chain_iff.2 (h.endsAt_global hid)

/-! ### Repairs -/

theorem extends_settle (h : w.Anchored) (id : ContextId) :
    w.tree.Extends (w.settle id).tree := by
  cases hlog : w.log.find? id with
  | none =>
    rw [settle_of_not_logged hlog]
    exact .refl _
  | some r =>
    rw [settle_of_logged hlog]
    exact extends_amend (h.logged id r hlog) id w.tree

theorem settle (h : w.Anchored) (id : ContextId) : (w.settle id).Anchored where
  wellFormed := h.wellFormed.settle id
  descending := (h.extends_settle id).descending h.descending
  logged c r hr := by
    rw [find?_settle] at hr
    split at hr
    · cases hr
    · exact h.logged c r hr

theorem extends_foldl_settle (h : w.Anchored) (ids : List ContextId) :
    w.tree.Extends (ids.foldl World.settle w).tree := by
  induction ids generalizing w with
  | nil => exact .refl _
  | cons id ids ih => exact (h.extends_settle id).trans (ih (h.settle id))

/-- The audit changes no link. -/
theorem extends_of_isAudit (h : w.Anchored) (haudit : op.isAudit = true) :
    w.tree.Extends (op.apply w).2.tree := by
  have hdoes := op.does h.wellFormed
  generalize (op.apply w).1 = a, (op.apply w).2 = w' at hdoes ⊢
  cases hdoes with
  | failed => exact .refl _
  | edited hno _ =>
    rw [haudit] at hno
    cases hno
  | passed _ _ => exact .refl _
  | logged _ _ => exact .refl _
  | spared _ _ _ => exact .refl _
  | repaired hr _ =>
    -- Whether the report is an old one or was made just now, it complains about no chain.
    refine extends_amend ?_ _ _
    rcases hr with hlog | ⟨-, hr, -⟩
    · exact h.logged _ _ hlog
    · exact h.isRooted_of_inspect hr
  | cleared => exact h.extends_foldl_settle _

end Anchored

end World

/-! ### One operation -/

/-- An operation that may leave a chain that does not end at the global context. -/
def Operation.isUnchecked : Operation → Bool
  | createDetached | reparent _ _ => true
  | _ => false

/-- An operation that hangs a context below the global one. -/
def Operation.isOrphan : Operation → Bool
  | orphan _ => true
  | _ => false

/-- A mutation that extends the tree when it succeeds and leaves it alone when it fails. -/
theorem extends_of_mutate {α : Type} {x : Mutation α} {g : α → Outcome}
    (hrun : op.run = g <$> mutate x) (hatomic : x.Atomic)
    (hx : ∀ t a, x w.tree = .ok a t → w.tree.Extends t) :
    w.tree.Extends (op.apply w).2.tree := by
  obtain ⟨t, a, hresult, h⟩ | ⟨e, h⟩ := apply_mutate_cases hrun hatomic w
  · rw [h]
    exact hx t a hresult
  · rw [h]
    exact .refl _

namespace World.Anchored

/-- No context that is there changes its parent, unless it is asked to. -/
theorem extends_apply (h : w.Anchored) (hop : op.isUnchecked = false)
    (horphan : op.isOrphan = false) : w.tree.Extends (op.apply w).2.tree := by
  cases op with
  | createContext parent =>
    exact extends_of_mutate rfl (Mutation.atomic_createContext parent) fun _ _ =>
      Mutation.createContext_extends
  | createScriptContext parent script =>
    exact extends_of_mutate rfl (Mutation.atomic_createScriptContext parent script) fun _ _ =>
      Mutation.createScriptContext_extends
  | createDetached => cases hop
  | addGroup name parent =>
    exact extends_of_mutate rfl (Mutation.atomic_addGroup name parent) fun _ _ =>
      Mutation.addGroup_extends h.wellFormed.tree
  | addScript name directory lines group =>
    exact extends_of_mutate rfl (Mutation.atomic_addScript name directory lines group) fun _ _ =>
      Mutation.addScript_extends
  | reparent id parent => cases hop
  | orphan id => cases horphan
  | addVariable id name protection value =>
    exact extends_of_mutate rfl (Mutation.atomic_addVariable id name protection value) fun _ _ =>
      Mutation.addVariable_extends
  | setVariable id name value n =>
    exact extends_of_mutate rfl (Mutation.atomic_setVariable id name value n) fun _ _ =>
      Mutation.setVariable_extends
  | removeVariable id name n =>
    exact extends_of_mutate rfl (Mutation.atomic_removeVariable id name n) fun _ _ =>
      Mutation.removeVariable_extends
  | verify id => exact h.extends_of_isAudit rfl
  | repair id => exact h.extends_of_isAudit rfl
  | repairAll => exact h.extends_of_isAudit rfl

theorem descending_apply (h : w.Anchored) (hop : op.isUnchecked = false) :
    (op.apply w).2.tree.Descending := by
  cases op with
  | orphan id =>
    -- No number is smaller than that of the global context.
    have hrun : (Operation.orphan id).run = (fun _ => Outcome.done) <$> mutate (.orphan id) := rfl
    obtain ⟨t, ⟨⟩, ht, hw⟩ | ⟨e, hw⟩ := apply_mutate_cases hrun (Mutation.atomic_orphan id) w
    · obtain ⟨-, -, rfl⟩ := Mutation.reparent_eq_ok_iff.1 ht
      rw [hw]
      exact h.descending.hang id
    · rw [hw]
      exact h.descending
  | _ => exact (h.extends_apply hop rfl).descending h.descending

theorem apply (h : w.Anchored) (hop : op.isUnchecked = false) : (op.apply w).2.Anchored where
  wellFormed := h.wellFormed.after [op]
  descending := h.descending_apply hop
  logged id r hr := by
    have hbehind := (find?_behind_eq_some_iff (m := ⟨w, op⟩) h.wellFormed).1 hr
    rcases hbehind with ⟨-, hfound⟩ | ⟨-, hlog⟩
    · exact h.isRooted_of_inspect hfound
    · exact h.logged id r hlog

/-! ### Runs -/

theorem after (h : w.Anchored) {ops : List Operation}
    (hops : ∀ op ∈ ops, op.isUnchecked = false) : (w.after ops).Anchored := by
  induction ops generalizing w with
  | nil => exact h
  | cons op ops ih =>
    exact ih (h.apply (hops op List.mem_cons_self)) fun o ho => hops o (List.mem_cons_of_mem op ho)

theorem extends_after (h : w.Anchored) {ops : List Operation}
    (hops : ∀ op ∈ ops, op.isUnchecked = false) (horphans : ∀ op ∈ ops, op.isOrphan = false) :
    w.tree.Extends (w.after ops).tree := by
  induction ops generalizing w with
  | nil => exact .refl _
  | cons op ops ih =>
    have hop := hops op List.mem_cons_self
    refine (h.extends_apply hop (horphans op List.mem_cons_self)).trans (ih (h.apply hop) ?_ ?_)
    · intro o ho
      exact hops o (List.mem_cons_of_mem op ho)
    · intro o ho
      exact horphans o (List.mem_cons_of_mem op ho)

end World.Anchored

/-! ### The result -/

/-- No chain of a world is broken, and no inspection says so. -/
structure World.Rooted (w : World) : Prop where
  /-- Every context but the global one has a parent, and that has a smaller number. -/
  parents : ∀ id ∈ w.tree.contextIds, id ≠ .global →
    ∃ p, w.tree.parentOf id = some p ∧ p < id
  /-- Every chain ends at the global context. -/
  ends : ∀ id ∈ w.tree.contextIds, w.tree.EndsAt id .global
  /-- No inspection finds a circular chain or a wrong end of one. -/
  inspected : ∀ id r, inspect w.tree id = .ok r → r.circular = false ∧ r.endsElsewhere = false
  /-- No report in the log speaks of one. -/
  logged : ∀ id r, w.log.find? id = some r → r.circular = false ∧ r.endsElsewhere = false

theorem World.Anchored.rooted (h : w.Anchored) : w.Rooted where
  parents id hid hne := h.descending id (Tree.mem_contextIds.1 hid) hne
  ends _ hid := h.endsAt_global (Tree.mem_contextIds.1 hid)
  inspected _ _ hr := h.isRooted_of_inspect hr
  logged := h.logged

/-- However long a run is and whatever its operations are given: if none of them opens a scope that
hangs nowhere or gives a context any parent it is asked to, no chain is ever broken and no
verification ever says so. If none of them hangs a context below the global one either, the scope of
every group inherits from those of the groups around it. -/
theorem after_rooted {ops : List Operation} (hops : ∀ op ∈ ops, op.isUnchecked = false) :
    (∀ before, before <+: ops → (World.after {} before).Rooted) ∧
      ((∀ op ∈ ops, op.isOrphan = false) → (World.after {} ops).tree.Inherits) := by
  constructor
  · intro before hbefore
    have hanchored : (World.after {} before).Anchored :=
      World.anchored_new.after fun op hop => hops op (hbefore.subset hop)
    exact hanchored.rooted
  · intro horphans
    have hextends := World.anchored_new.extends_after hops horphans
    have hnested := hextends.scopesNested Tree.scopesNested_new
    exact hnested.inherits (wellFormed_after ops).tree

/-- The second group lies in the first one, and three and four belong to a script of it. The audit
has null and the empty name to complain about, and some operations fail. -/
def nest : List Operation :=
  [.addGroup "engine" .global, .addGroup "physics" ⟨1⟩, .addScript "lib" "scripts" [] (some ⟨2⟩),
    .createScriptContext ⟨2⟩ ⟨0⟩, .createContext ⟨3⟩, .createContext ⟨9⟩,
    .addVariable ⟨1⟩ "gravity" .group (.integer 10), .addVariable ⟨4⟩ "" .owner .null,
    .verify ⟨4⟩, .repair ⟨7⟩, .repairAll]

theorem after_rooted_nest :
    (∀ before, before <+: nest → (World.after {} before).Rooted) ∧
      (World.after {} nest).tree.Inherits :=
  ⟨(after_rooted (by decide)).1, (after_rooted (by decide)).2 (by decide)⟩

-- What the outer group binds is found from four. When the scope of the inner group has been hung
-- below the global context, it is found no longer, though the chain still ends where it should.
example : (World.after {} nest).tree.ownerOf ⟨4⟩ "gravity" 0 = .ok ⟨1⟩ ∧
    (World.after {} (nest ++ [.orphan ⟨2⟩])).tree.ownerOf ⟨4⟩ "gravity" 0 =
      .error (.variableNotFound ⟨4⟩ "gravity") := ⟨rfl, rfl⟩

end Offside.Audit
