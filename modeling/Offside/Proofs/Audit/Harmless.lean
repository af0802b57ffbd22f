import Offside.Proofs.Audit.Restoring

/-!
# `Offside.Proofs.Audit.Harmless`: repairs break nothing

A repair goes by what the log says, which may have been found long ago or in another tree: it may
re-point a context in the middle of chains that are in order by now, and remove names that are
bound to something by now. It does no harm all the same. All it can do to a tree is to hang
contexts directly below the global one and to remove bindings (`Pruned`), and a sound context stays
sound through both (`Sound.pruned`).

`Effect.Prunes` says that an effect does nothing else, whether it succeeds or fails. Every step of
a mend is such an effect, and such effects one after another are one, so `repair_prunes` and
`repairEach_prunes` need not know how far a mend gets. `repair_harmless` is the result.
-/

set_option autoImplicit false

namespace Offside.Audit

open Offside.Scope

/-- An inspection finds nothing wrong with a context. -/
def Valid (t : Tree) (id : ContextId) : Prop := ∃ r, inspect t id = .ok r ∧ r.isValid = true

/-! ### Pruned trees -/

/-- The second tree is the first one where contexts have come to hang directly below the global
one and bindings are gone. -/
structure Pruned (t t' : Tree) : Prop where
  /-- The tree is still well formed. -/
  wellFormed : t'.WellFormed
  /-- Contexts have come to hang below the global one. -/
  rehung : t.Rehung t'
  /-- Nothing more is bound. -/
  fewer : ∀ c, t'.bindingsOf c ⊆ t.bindingsOf c
  /-- No context is lost. -/
  has : ∀ c, t.Has c → t'.Has c

section

variable {t t' t'' : Tree}

theorem Pruned.refl (ht : t.WellFormed) : Pruned t t where
  wellFormed := ht
  rehung := ⟨ht.rootless, fun _ => .inl rfl⟩
  fewer _ := List.Subset.refl _
  has _ h := h

theorem Pruned.trans (h : Pruned t t') (h' : Pruned t' t'') : Pruned t t'' where
  wellFormed := h'.wellFormed
  rehung := h.rehung.trans h'.rehung
  fewer c := List.Subset.trans (h'.fewer c) (h.fewer c)
  has c hc := h'.has c (h.has c hc)

/-- A context stays sound when its chain is cut short and names are removed. -/
theorem Sound.pruned {id : ContextId} (h : Sound t id) (hp : Pruned t t') : Sound t' id where
  rooted := h.rooted.rehung_global hp.rehung (.inl rfl)
  bindings e he := h.bindings e (hp.fewer id he)

theorem Valid.pruned {id : ContextId} (ht : t.WellFormed) (h : Valid t id) (hp : Pruned t t') :
    Valid t' id := by
  obtain ⟨hid, hsound⟩ := (inspect_isValid_iff ht).1 h
  exact (inspect_isValid_iff hp.wellFormed).2 ⟨hp.has id hid, hsound.pruned hp⟩

/-- A tree is pruned if each of its contexts keeps its parent or hangs below the global one, and
binds nothing more. -/
theorem pruned_of_map (hwell : t'.WellFormed) {f : ContextId → Context → Context}
    (hmap : ∀ c, t'.context? c = (t.context? c).map (f c))
    (hparent : ∀ c x, (f c x).parent = x.parent ∨ (f c x).parent = some .global)
    (hbindings : ∀ c x, (f c x).bindings.entries ⊆ x.bindings.entries) : Pruned t t' where
  wellFormed := hwell
  rehung := by
    refine ⟨hwell.rootless, fun c => ?_⟩
    rw [Tree.parentOf, Tree.parentOf, hmap]
    cases t.context? c with
    | none => exact .inl rfl
    | some x => exact hparent c x
  fewer c := by
    rw [Tree.bindingsOf, Tree.bindingsOf, hmap]
    cases t.context? c with
    | none => exact List.Subset.refl _
    | some x => exact hbindings c x
  has c hc := by
    obtain ⟨x, hx⟩ := Tree.has_iff.1 hc
    exact Tree.has_iff.2 ⟨f c x, by rw [hmap, hx]; rfl⟩

theorem pruned_of_orphan (ht : t.WellFormed) {id : ContextId}
    (h : Mutation.orphan id t = .ok () t') : Pruned t t' := by
  obtain ⟨-, hid, -⟩ := Mutation.reparent_eq_ok_iff.1 h
  have hwell : t'.WellFormed := ht.changes (Mutation.reparent_change h)
  rw [Tree.orphan_eq_ok ht.root hid] at h
  cases h
  refine pruned_of_map hwell (Tree.context?_hang t id) (fun c x => ?_) fun _ _ =>
    List.Subset.refl _
  by_cases hc : c ≠ .global ∧ c = id
  · exact .inr (if_pos hc)
  · exact .inl (if_neg hc)

theorem pruned_unbindAll (ht : t.WellFormed) (id : ContextId) (names : List String) :
    Pruned t (t.unbindAll id names) := by
  have hwell : (t.unbindAll id names).WellFormed := by
    rw [Tree.unbindAll_eq_modify]
    exact ht.modify (fun _ => .inl rfl) fun _ hx => hx.eraseAll names
  refine pruned_of_map hwell (Tree.context?_unbindAll t id names) (fun _ _ => .inl rfl)
    fun c x => ?_
  show (if c = id then x.bindings.eraseAll names else x.bindings).entries ⊆ _
  split
  · exact List.filter_subset_self _
  · exact List.Subset.refl _

end

/-! ### Effects that prune -/

namespace Effect

variable {α β : Type}

/-- Whether it succeeds or not, the effect does nothing to the tree but prune it. -/
def Prunes (x : Effect α) : Prop := ∀ w, w.tree.WellFormed → Pruned w.tree (x.behind w).tree

/-- An effect that leaves the tree alone. -/
theorem Prunes.of_tree_eq {x : Effect α} (h : ∀ w, (x.behind w).tree = w.tree) : Prunes x := by
  intro w hw
  rw [h w]
  exact .refl hw

theorem Prunes.pure (a : α) : Prunes (Pure.pure a : Effect α) := .of_tree_eq fun _ => rfl

theorem Prunes.bind {x : Effect α} {f : α → Effect β} (hx : Prunes x) (hf : ∀ a, Prunes (f a)) :
    Prunes (x >>= f) :=
  behind_bind (R := fun w w' => w.tree.WellFormed → Pruned w.tree w'.tree)
    (fun _ _ _ h h' hw => (h hw).trans (h' (h hw).wellFormed)) hx hf

/-- A mutation that prunes the tree when it succeeds and leaves it alone when it fails. -/
theorem prunes_mutate {x : Mutation α} (hatomic : x.Atomic)
    (hx : ∀ t t' a, t.WellFormed → x t = .ok a t' → Pruned t t') : Prunes (mutate x) := by
  intro w hw
  rw [behind]
  cases hresult : x w.tree with
  | ok a t =>
    rw [mutate_eq_of_ok hresult]
    exact hx w.tree t a hw hresult
  | error e t =>
    rw [mutate_eq_of_error hatomic hresult]
    exact .refl hw

theorem prunes_orphan (id : ContextId) : Prunes (mutate (.orphan id)) :=
  prunes_mutate (Mutation.atomic_orphan id) fun _ _ _ ht h => pruned_of_orphan ht h

theorem prunes_removeNames (id : ContextId) (names : List String) :
    Prunes (mutate (.removeNames id names)) := by
  refine prunes_mutate (Mutation.atomic_removeNames id names) fun t t' _ ht h => ?_
  obtain ⟨-, rfl⟩ := Mutation.removeNames_eq_ok_iff.1 h
  exact pruned_unbindAll ht id names

end Effect

open Effect

theorem verify_prunes (id : ContextId) : Prunes (verify id) := by
  have hask : Prunes (ask (inspect · id)) := .of_tree_eq fun w => by
    rw [behind, ask]
    cases inspect w.tree id <;> rfl
  refine hask.bind fun r => ?_
  cases r.isValid with
  | true => exact .pure true
  | false => exact (Prunes.of_tree_eq fun _ => rfl).bind fun _ => .pure false

/-- Mending a report prunes the tree, whatever the report says and however far the mending
gets. -/
theorem mend_prunes (id : ContextId) (r : Report) : Prunes (mend id r) :=
  mend_behind (R := fun w w' => w.tree.WellFormed → Pruned w.tree w'.tree)
    (fun _ _ _ h h' hw => (h hw).trans (h' (h hw).wellFormed)) prunes_orphan
    (prunes_removeNames id r.badNames)

theorem logged_prunes (id : ContextId) : Prunes (logged? id) := .of_tree_eq fun _ => rfl

theorem mendLogged_prunes (id : ContextId) : Prunes (mendLogged id) := by
  refine (logged_prunes id).bind fun found => ?_
  cases found with
  | none => exact .pure false
  | some r =>
    refine Prunes.bind (.of_tree_eq fun _ => rfl) fun _ => ?_
    exact (mend_prunes id r).bind fun _ => .pure true

theorem repair_prunes (id : ContextId) : Prunes (repair id) := by
  refine (logged_prunes id).bind fun found => ?_
  cases found with
  | some r => exact mendLogged_prunes id
  | none =>
    refine (verify_prunes id).bind fun sound => ?_
    cases sound with
    | true => exact .pure false
    | false => exact mendLogged_prunes id

theorem repairEach_prunes (ids : List ContextId) : Prunes (repairEach ids) := by
  induction ids with
  | nil => exact .pure 0
  | cons id ids ih => exact (repair_prunes id).bind fun _ => ih.bind fun _ => .pure _

/-- Whatever tree a program has built and whatever a log says about it, in whatever order the log
is gone through and whether or not a repair succeeds: what was valid before is valid afterwards. -/
theorem repair_harmless {w : World} (hw : w.Reachable) (log : Register ContextId Report)
    {c : ContextId} (hc : Valid w.tree c) :
    (∀ id, Valid ((repair id).behind { w with log }).tree c) ∧
      (∀ ids, Valid ((repairEach ids).behind { w with log }).tree c) ∧
      Valid (repairAll.behind { w with log }).tree c := by
  have ht : w.tree.WellFormed := hw.wellFormed.tree
  refine ⟨fun id => ?_, fun ids => ?_, ?_⟩
  · exact hc.pruned ht (repair_prunes id { w with log } ht)
  · exact hc.pruned ht (repairEach_prunes ids { w with log } ht)
  · exact hc.pruned ht (repairEach_prunes log.keys { w with log } ht)

/-- The log has an entry about two from when it hung below a detached context and bound a name to
null. Since then the detached one has come to hang below three and the name is bound to a number.
Four hangs below two. -/
def outdated : World :=
  World.after {}
    [.createDetached, .createContext ⟨1⟩, .createContext .global, .createContext ⟨2⟩,
      .addVariable ⟨2⟩ "x" .everyone .null, .verify ⟨2⟩, .reparent ⟨1⟩ (some ⟨3⟩),
      .setVariable ⟨2⟩ "x" (.integer 1) 0]

/-- The repair of two re-points the context that two and four hang below, and removes the name. Both
stay valid. -/
theorem repair_harmless_outdated :
    ((repair ⟨2⟩).behind outdated).tree.contexts.map (fun c => (c.parent, c.bindings.keys)) =
        [(none, []), (some .global, []), (some ⟨1⟩, []), (some .global, []), (some ⟨2⟩, [])] ∧
      (Valid outdated.tree ⟨2⟩ ∧ Valid ((repair ⟨2⟩).behind outdated).tree ⟨2⟩) ∧
      Valid outdated.tree ⟨4⟩ ∧ Valid ((repair ⟨2⟩).behind outdated).tree ⟨4⟩ := by
  have hreachable : outdated.Reachable := ⟨_, rfl⟩
  have htwo : Valid outdated.tree ⟨2⟩ := ⟨_, rfl, rfl⟩
  have hfour : Valid outdated.tree ⟨4⟩ := ⟨_, rfl, rfl⟩
  exact ⟨rfl, ⟨htwo, (repair_harmless hreachable outdated.log htwo).1 ⟨2⟩⟩,
    hfour, (repair_harmless hreachable outdated.log hfour).1 ⟨2⟩⟩

end Offside.Audit
