import Offside.Audit.World
import Offside.Proofs.Audit.Inspection

/-!
# `Offside.Proofs.Audit.Mending`: what mending a report changes

Mending hangs contexts below the global one and removes names, step by step. The outcome can be
said of each context on its own (`Report.amendContext`): a context that the report asks to hang
(`Report.Hangs`) gets the global context as its parent, the context that the report is about
loses the bad names, and nothing else changes. `Report.amend` is the tree of these contexts and
`mend_eq_ok` says that mending makes it.

Since each context is changed on its own, the order of two amendments does not matter
(`Report.amend_comm`).
-/

set_option autoImplicit false

namespace Offside.Scope.Tree

/-- Trees are told apart by their contexts, scripts and groups. -/
theorem ext_context? {t t' : Tree} (hcontexts : ∀ c, t.context? c = t'.context? c)
    (hscripts : t.scripts = t'.scripts) (hgroups : t.groups = t'.groups) : t = t' := by
  obtain ⟨contexts, scripts, groups⟩ := t
  obtain ⟨contexts', scripts', groups'⟩ := t'
  cases hscripts
  cases hgroups
  congr 1
  exact List.ext_getElem? fun i => hcontexts ⟨i⟩

/-- The tree where a context other than the global one hangs directly below it. -/
def hang (t : Tree) (id : ContextId) : Tree :=
  if id = .global then t else t.modify id (fun c => { c with parent := some .global })

theorem hang_global (t : Tree) : t.hang .global = t := if_pos rfl

theorem orphan_eq_ok {t : Tree} {id : ContextId} (hroot : t.Has .global) (hid : t.Has id) :
    Mutation.orphan id t = .ok () (t.hang id) :=
  Mutation.reparent_eq_ok_iff.2 ⟨by rintro p ⟨⟩; exact hroot, hid, rfl⟩

theorem context?_hang (t : Tree) (id c : ContextId) :
    (t.hang id).context? c = (t.context? c).map (fun x =>
      { x with parent := if c ≠ .global ∧ c = id then some .global else x.parent }) := by
  rw [hang]
  split
  · rename_i hglobal
    have hno : ¬ (c ≠ .global ∧ c = id) := fun h => h.1 (h.2.trans hglobal)
    simp only [if_neg hno, Option.map_id']
  · rename_i hne
    rw [context?_modify]
    split
    · rename_i hc
      simp only [if_pos (show c ≠ .global ∧ c = id from ⟨hc ▸ hne, hc⟩)]
    · rename_i hc
      simp only [if_neg (show ¬ (c ≠ .global ∧ c = id) from fun h => hc h.2), Option.map_id']

theorem has_hang {t : Tree} {id c : ContextId} : (t.hang id).Has c ↔ t.Has c := by
  rw [hang]
  split
  · rfl
  · exact has_modify

theorem unbindAll_eq_modify (t : Tree) (id : ContextId) (names : List String) :
    t.unbindAll id names =
      t.modify id (fun x => { x with bindings := x.bindings.eraseAll names }) := by
  induction names generalizing t with
  | nil =>
    simp only [unbindAll, List.foldl_nil, Register.eraseAll_nil]
    exact congrArg (fun contexts => { t with contexts }) (List.modify_id id.index _).symm
  | cons name names ih =>
    show (t.unbind id name).unbindAll id names = _
    rw [ih, unbind, modify, modify, modify]
    simp only [List.modify_modify_eq, Function.comp_def, Register.eraseAll_cons]

theorem context?_unbindAll (t : Tree) (id : ContextId) (names : List String) (c : ContextId) :
    (t.unbindAll id names).context? c = (t.context? c).map (fun x =>
      { x with bindings := if c = id then x.bindings.eraseAll names else x.bindings }) := by
  rw [unbindAll_eq_modify, context?_modify]
  split
  · rfl
  · rw [Option.map_id']

end Offside.Scope.Tree

namespace Offside.Audit

open Offside.Scope Effect

/-! ### Amended trees -/

/-- A report about `id` asks to hang `c` below the global context: `c` is the wrong end of the
chain, or the chain has no end and `c` is `id`. -/
def Report.Hangs (r : Report) (id c : ContextId) : Prop :=
  c ≠ .global ∧ (r.finalParent = some c ∨ r.circular = true ∧ c = id)

instance (r : Report) (id c : ContextId) : Decidable (r.Hangs id c) :=
  inferInstanceAs (Decidable (_ ∧ _))

/-- What becomes of a context `c` when a report about `id` is mended. -/
def Report.amendContext (r : Report) (id c : ContextId) (x : Context) : Context :=
  { x with
    parent := if r.Hangs id c then some .global else x.parent
    bindings := if c = id then x.bindings.eraseAll r.badNames else x.bindings }

/-- The tree where a report has been mended. -/
def Report.amend (r : Report) (id : ContextId) (t : Tree) : Tree :=
  { t with contexts := t.contexts.mapIdx (fun i x => r.amendContext id ⟨i⟩ x) }

theorem Report.amendContext_comm (r s : Report) (i j c : ContextId) (x : Context) :
    r.amendContext i c (s.amendContext j c x) = s.amendContext j c (r.amendContext i c x) := by
  simp only [amendContext, Context.mk.injEq, true_and]
  constructor
  · split
    · rw [ite_self]
    · rfl
  · split
    · split
      · exact Register.eraseAll_comm _ _ _
      · rfl
    · rfl

section amend

variable {t : Tree} {r : Report} {id c : ContextId}

theorem context?_amend (r : Report) (id : ContextId) (t : Tree) (c : ContextId) :
    (r.amend id t).context? c = (t.context? c).map (r.amendContext id c) :=
  List.getElem?_mapIdx

/-- Two reports can be mended in either order. -/
theorem Report.amend_comm (r s : Report) (i j : ContextId) (t : Tree) :
    r.amend i (s.amend j t) = s.amend j (r.amend i t) := by
  refine Tree.ext_context? (fun c => ?_) rfl rfl
  simp only [context?_amend, Option.map_map]
  congr 1
  exact funext fun x => Report.amendContext_comm r s i j c x

@[simp] theorem has_amend : (r.amend id t).Has c ↔ t.Has c := by
  simp [Tree.Has, Report.amend]

theorem contextIds_amend : (r.amend id t).contextIds = t.contextIds := by
  simp [Tree.contextIds, Report.amend]

theorem parentOf_amend_of_hangs (hc : t.Has c) (h : r.Hangs id c) :
    (r.amend id t).parentOf c = some .global := by
  obtain ⟨x, hx⟩ := Tree.has_iff.1 hc
  rw [Tree.parentOf, context?_amend, hx]
  exact if_pos h

theorem parentOf_amend_of_not_hangs (h : ¬ r.Hangs id c) :
    (r.amend id t).parentOf c = t.parentOf c := by
  rw [Tree.parentOf, Tree.parentOf, context?_amend]
  cases t.context? c with
  | none => rfl
  | some x => exact if_neg h

theorem bindingsOf_amend (r : Report) (id : ContextId) (t : Tree) (c : ContextId) :
    (r.amend id t).bindingsOf c =
      if c = id then (t.bindingsOf c).filter (fun e => e.1 ∉ r.badNames) else t.bindingsOf c := by
  rw [Tree.bindingsOf, Tree.bindingsOf, context?_amend]
  cases t.context? c with
  | none => exact (ite_self []).symm
  | some x =>
    show (if c = id then x.bindings.eraseAll r.badNames else x.bindings).entries = _
    split <;> rfl

theorem bindingsOf_amend_self :
    (r.amend id t).bindingsOf id = (t.bindingsOf id).filter (fun e => e.1 ∉ r.badNames) := by
  rw [bindingsOf_amend, if_pos rfl]

theorem bindingsOf_amend_of_ne (h : c ≠ id) :
    (r.amend id t).bindingsOf c = t.bindingsOf c := by
  rw [bindingsOf_amend, if_neg h]

theorem bindingsOf_amend_subset (r : Report) (id : ContextId) (t : Tree) (c : ContextId) :
    (r.amend id t).bindingsOf c ⊆ t.bindingsOf c := by
  rw [bindingsOf_amend]
  split
  · exact List.filter_subset_self _
  · exact List.Subset.refl _

/-- Mending hangs contexts below the global one. -/
theorem rehung_amend (ht : t.WellFormed) : t.Rehung (r.amend id t) where
  rootless := (parentOf_amend_of_not_hangs fun h => h.1 rfl).trans ht.rootless
  link c := by
    rw [Tree.parentOf, Tree.parentOf, context?_amend]
    cases t.context? c with
    | none => exact .inl rfl
    | some x =>
      by_cases hc : r.Hangs id c
      · exact .inr (if_pos hc)
      · exact .inl (if_neg hc)

theorem wellFormed_amend (ht : t.WellFormed) : (r.amend id t).WellFormed where
  root := has_amend.2 ht.root
  rootless := (rehung_amend ht).rootless
  parents c p hp := by
    rw [has_amend]
    rcases (rehung_amend ht).link c with hsame | hglobal
    · exact ht.parents c p (hsame ▸ hp)
    · rw [hglobal] at hp
      cases hp
      exact ht.root
  scopes g hg := has_amend.2 (ht.scopes g hg)
  ordered c x hx := by
    rw [context?_amend] at hx
    obtain ⟨y, hy, rfl⟩ := Option.map_eq_some_iff.1 hx
    have hordered := ht.ordered c y hy
    show (if c = id then y.bindings.eraseAll r.badNames else y.bindings).Ordered
    split
    · exact hordered.eraseAll _
    · exact hordered

end amend

/-! ### Mending -/

namespace Effect

variable {α : Type} {x : Mutation α} {w : World} {t : Tree}

theorem mutate_eq_of_ok {a : α} (h : x w.tree = .ok a t) :
    mutate x w = .ok a { w with tree := t } := by
  rw [mutate, h]

/-- A mutation that leaves the tree as it was when it fails leaves the world as it was. -/
theorem mutate_eq_of_error {e : Scope.Error} (hx : x.Atomic) (h : x w.tree = .error e t) :
    mutate x w = .error e w := by
  rw [mutate, h, hx _ _ _ h]

end Effect

/-- A report that can be mended in a tree: the contexts it names exist. -/
structure Report.Fits (r : Report) (t : Tree) (id : ContextId) : Prop where
  /-- The context it is about. -/
  about : t.Has id
  /-- The end of the chain. -/
  finalParent : ∀ last, r.finalParent = some last → t.Has last

/-- The tree behind the re-pointing of a mend: first the end of the chain, then the context
itself. -/
def Report.hung (r : Report) (id : ContextId) (t : Tree) : Tree :=
  let ended := r.finalParent.elim t t.hang
  if r.circular then ended.hang id else ended

theorem context?_hung (r : Report) (id : ContextId) (t : Tree) (c : ContextId) :
    (r.hung id t).context? c = (t.context? c).map (fun x =>
      { x with parent := if r.Hangs id c then some .global else x.parent }) := by
  have hend (c : ContextId) : (r.finalParent.elim t t.hang).context? c =
      (t.context? c).map (fun x => { x with
        parent := if c ≠ .global ∧ r.finalParent = some c then some .global else x.parent }) := by
    cases r.finalParent with
    | none => simp
    | some last => simp [Tree.context?_hang, eq_comm]
  rw [Report.hung]
  cases hcircular : r.circular with
  | false => simp [hend, Report.Hangs, hcircular]
  | true =>
    simp only [if_true, Tree.context?_hang, hend, Option.map_map, Function.comp_def,
      Report.Hangs, hcircular, true_and, and_or_left]
    congr 1
    funext x
    split
    · rename_i hid
      rw [if_pos (.inr hid)]
    · rename_i hid
      simp only [hid, or_false]

theorem scripts_groups_hung (r : Report) (id : ContextId) (t : Tree) :
    (r.hung id t).scripts = t.scripts ∧ (r.hung id t).groups = t.groups := by
  have hhang (t : Tree) (c : ContextId) :
      (t.hang c).scripts = t.scripts ∧ (t.hang c).groups = t.groups := by
    rw [Tree.hang]
    split <;> exact ⟨rfl, rfl⟩
  rw [Report.hung]
  cases r.finalParent <;> cases r.circular <;> simp [hhang]

theorem amend_eq_unbindAll (r : Report) (id : ContextId) (t : Tree) :
    r.amend id t = (r.hung id t).unbindAll id r.badNames := by
  obtain ⟨hscripts, hgroups⟩ := scripts_groups_hung r id t
  refine Tree.ext_context? (fun c => ?_) ?_ ?_
  · rw [context?_amend, Tree.context?_unbindAll, context?_hung, Option.map_map]
    rfl
  · rw [Tree.unbindAll_eq_modify]
    exact hscripts.symm
  · rw [Tree.unbindAll_eq_modify]
    exact hgroups.symm

theorem has_hung {r : Report} {id c : ContextId} {t : Tree} :
    (r.hung id t).Has c ↔ t.Has c := by
  rw [Tree.has_iff, Tree.has_iff, context?_hung]
  simp only [Option.map_eq_some_iff, exists_comm (α := Context), exists_and_left,
    exists_eq', and_true]

/-- Mending a report gives the amended tree. -/
theorem mend_eq_ok {w : World} {id : ContextId} {r : Report} (ht : w.tree.WellFormed)
    (hr : r.Fits w.tree id) : mend id r w = .ok () { w with tree := r.amend id w.tree } := by
  have hcircular (rest : Effect Unit) (w : World) (hroot : w.tree.Has .global)
      (hid : w.tree.Has id) :
      (if r.circular then do mutate (.orphan id); rest else rest) w =
        rest { w with tree := if r.circular then w.tree.hang id else w.tree } := by
    split
    · exact bind_eq_of_ok (mutate_eq_of_ok (Tree.orphan_eq_ok hroot hid))
    · rfl
  have hhung : mend id r w =
      mutate (.removeNames id r.badNames) { w with tree := r.hung id w.tree } := by
    rw [Report.hung]
    unfold mend
    cases hlast : r.finalParent with
    | none => exact hcircular _ w ht.root hr.about
    | some last =>
      have hhas : w.tree.Has last := hr.finalParent last hlast
      dsimp only
      split
      · rw [bind_eq_of_ok (mutate_eq_of_ok (Tree.orphan_eq_ok ht.root hhas))]
        exact hcircular _ _ (Tree.has_hang.2 ht.root) (Tree.has_hang.2 hr.about)
      -- The chain ends at the global context, which hangs nowhere.
      · rename_i helse
        have hglobal : last = .global := by
          simpa [Report.endsElsewhere, hlast] using helse
        rw [hglobal, Option.elim_some, Tree.hang_global]
        exact hcircular _ w ht.root hr.about
  rw [hhung, amend_eq_unbindAll]
  exact mutate_eq_of_ok (Mutation.removeNames_eq_ok_iff.2 ⟨has_hung.2 hr.about, rfl⟩)

end Offside.Audit
