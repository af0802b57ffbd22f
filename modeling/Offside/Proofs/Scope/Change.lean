import Mathlib.Logic.Relation
import Offside.Proofs.Register
import Offside.Proofs.Scope.Mutation

/-!
# `Offside.Proofs.Scope.Change`: what one change does to a tree

Every mutation of a tree that succeeds makes one of the changes of `Change`, which hold all that
the mutation has checked, or a run of them; the lemmas named after the mutations say which. What
holds of every tree that a program can build is proved from the changes alone: `WellFormed` is kept
by each (`WellFormed.change`), and no context is ever lost (`Change.has`).

The first section says what a change does to one context and its parent, by `context?_push` and
`context?_modify`.
-/

set_option autoImplicit false

namespace Offside.Scope

namespace Tree

variable {t t' : Tree}

/-! ### One context after a change -/

theorem context?_push (t : Tree) (c : Context) (id : ContextId) :
    (t.push c).1.context? id = if id.index = t.contexts.length then some c else t.context? id := by
  simp only [push, context?]
  split
  · rename_i h
    rw [h, List.getElem?_concat_length]
  · rename_i h
    rcases Nat.lt_or_ge id.index t.contexts.length with hlt | hge
    · rw [List.getElem?_append_left hlt]
    · rw [List.getElem?_eq_none hge, List.getElem?_eq_none]
      rw [List.length_append, List.length_singleton]
      omega

theorem context?_modify (t : Tree) (id : ContextId) (f : Context → Context) (c : ContextId) :
    (t.modify id f).context? c = if c = id then (t.context? c).map f else t.context? c := by
  obtain ⟨i⟩ := id
  obtain ⟨j⟩ := c
  simp only [modify, context?, List.getElem?_modify, ContextId.mk.injEq, eq_comm (a := j)]
  split
  · rfl
  · exact Option.map_id'

@[simp] theorem has_push {c : Context} {id : ContextId} :
    (t.push c).1.Has id ↔ id.index < t.contexts.length + 1 := by
  simp [Has, push]

@[simp] theorem has_modify {id c : ContextId} {f : Context → Context} :
    (t.modify id f).Has c ↔ t.Has c := by
  simp [Has, modify]

theorem parentOf_push_of_has {c : Context} {id : ContextId} (h : t.Has id) :
    (t.push c).1.parentOf id = t.parentOf id := by
  rw [parentOf, context?_push, if_neg (Nat.ne_of_lt h)]
  rfl

/-! ### Well-formed trees -/

/-- What every tree that a program can build satisfies. -/
structure WellFormed (t : Tree) : Prop where
  /-- There is a global context. -/
  root : t.Has .global
  /-- It has no parent. -/
  rootless : t.parentOf .global = none
  /-- Parents exist. -/
  parents : ∀ id p, t.parentOf id = some p → t.Has p
  /-- The scopes of groups exist. -/
  scopes : ∀ g ∈ t.groups, t.Has g.context
  /-- Names are listed in order. -/
  ordered : ∀ id c, t.context? id = some c → c.bindings.Ordered

theorem wellFormed_new : new.WellFormed where
  root := Nat.zero_lt_one
  rootless := rfl
  parents id p h := by
    obtain ⟨c, hc, hp⟩ := Option.bind_eq_some_iff.1 h
    rw [context?, new, List.getElem?_singleton] at hc
    split at hc
    · cases hc
      cases hp
    · cases hc
  scopes g hg := by
    rw [List.mem_singleton.1 hg]
    exact Nat.zero_lt_one
  ordered id c hc := by
    rw [context?, new, List.getElem?_singleton] at hc
    split at hc
    · cases hc
      exact Register.ordered_empty
    · cases hc

namespace WellFormed

/-- A new context may hang below any other, and binds nothing. -/
theorem push (h : t.WellFormed) {c : Context} (hparent : ∀ p ∈ c.parent, t.Has p)
    (hbindings : c.bindings = {}) : (t.push c).1.WellFormed where
  root := has_push.2 (Nat.lt_succ_of_lt h.root)
  rootless := (parentOf_push_of_has h.root).trans h.rootless
  parents id p hp := by
    rw [parentOf, context?_push] at hp
    rw [has_push]
    split at hp
    · exact Nat.lt_succ_of_lt (hparent p hp)
    · exact Nat.lt_succ_of_lt (h.parents id p hp)
  scopes g hg := has_push.2 (Nat.lt_succ_of_lt (h.scopes g hg))
  ordered id d hd := by
    rw [context?_push] at hd
    split at hd
    · cases hd
      rw [hbindings]
      exact Register.ordered_empty
    · exact h.ordered id d hd

/-- A context may change in a way that keeps its parent or gives it another context for one,
if it is not the global context, and that keeps its names in order. -/
theorem modify (h : t.WellFormed) {id : ContextId} {f : Context → Context}
    (hparent : ∀ c, (f c).parent = c.parent ∨ id ≠ .global ∧ ∀ p ∈ (f c).parent, t.Has p)
    (hbindings : ∀ c, c.bindings.Ordered → (f c).bindings.Ordered) :
    (t.modify id f).WellFormed where
  root := has_modify.2 h.root
  rootless := by
    rw [parentOf, context?_modify]
    split
    · rename_i hid
      have hroot := h.rootless
      rw [parentOf] at hroot
      cases hc : t.context? .global with
      | none => rfl
      | some c =>
        rw [hc] at hroot
        rcases hparent c with hsame | ⟨hne, -⟩
        · exact hsame.trans hroot
        · exact absurd hid.symm hne
    · exact h.rootless
  parents c p hp := by
    rw [has_modify]
    rw [parentOf, context?_modify] at hp
    split at hp
    · obtain ⟨d, hd, hp⟩ := Option.bind_eq_some_iff.1 hp
      obtain ⟨e, he, rfl⟩ := Option.map_eq_some_iff.1 hd
      rcases hparent e with hsame | ⟨-, hhas⟩
      · rw [hsame] at hp
        exact h.parents c p (Option.bind_eq_some_iff.2 ⟨e, he, hp⟩)
      · exact hhas p hp
    · exact h.parents c p hp
  scopes g hg := has_modify.2 (h.scopes g hg)
  ordered c d hd := by
    rw [context?_modify] at hd
    split at hd
    · obtain ⟨e, he, rfl⟩ := Option.map_eq_some_iff.1 hd
      exact hbindings e (h.ordered c e he)
    · exact h.ordered c d hd

/-- The end of the chain of a context is a context. -/
theorem has_of_endsAt (h : t.WellFormed) {id last : ContextId} (hend : t.EndsAt id last)
    (hid : t.Has id) : t.Has last := by
  induction hend with
  | root _ => exact hid
  | step hparent _ ih => exact ih (h.parents _ _ hparent)

/-- Scripts and groups may change as long as the scopes of groups exist. -/
theorem of_contexts_eq (h : t.WellFormed) (hcontexts : t'.contexts = t.contexts)
    (hscopes : ∀ g ∈ t'.groups, t.Has g.context) : t'.WellFormed := by
  obtain ⟨contexts, scripts, groups⟩ := t'
  cases hcontexts
  exact ⟨h.root, h.rootless, h.parents, hscopes, h.ordered⟩

end WellFormed

/-! ### Changes -/

/-- One change of a tree. -/
inductive Change (t : Tree) : Tree → Prop
  /-- A scope is opened below another. -/
  | context {parent : ContextId} :
      t.Has parent → Change t (t.push { parent := some parent }).1
  /-- The outermost scope of a script is opened. -/
  | scriptContext {parent : ContextId} {script : ScriptId} {s : Script} :
      t.Has parent → t.script? script = some s →
      Change t (t.push { parent := some parent, script := some script, group := s.group }).1
  /-- A scope is opened without a parent. -/
  | detached : Change t (t.push {}).1
  /-- A group is added, with a scope of its own. -/
  | group {name : String} {parent : GroupId} {g : Group} :
      t.group? parent = some g →
      Change t
        { (t.push { parent := some g.context, group := some ⟨t.groups.length⟩ }).1 with
          groups := t.groups ++
            [{ name, parent := some parent, context := ⟨t.contexts.length⟩ }] }
  /-- A script is added that belongs to no group. -/
  | script {name directory : String} {lines : List String} :
      Change t { t with scripts := t.scripts ++ [{ name, directory, lines, group := none }] }
  /-- A script is added to a group. -/
  | member {name directory : String} {lines : List String} {group : GroupId} {g : Group} :
      t.group? group = some g →
      Change t
        { t.enroll ⟨t.scripts.length⟩ group with
          scripts := t.scripts ++ [{ name, directory, lines, group := some group }] }
  /-- A context other than the global one gets another parent, or none. -/
  | reparent {id : ContextId} {parent : Option ContextId} :
      id ≠ .global → t.Has id → (∀ p ∈ parent, t.Has p) →
      Change t (t.modify id (fun c => { c with parent }))
  /-- A name is bound in a context. -/
  | bind {id : ContextId} {name : String} {slot : Slot} :
      t.Has id → Change t (t.bind id name slot)
  /-- A name is no longer bound in a context. -/
  | unbind {id : ContextId} {name : String} : t.Has id → Change t (t.unbind id name)

/-- A run of changes. -/
abbrev Changes : Tree → Tree → Prop := Relation.ReflTransGen Change

/-- No context is lost. -/
theorem Change.has (h : t.Change t') {id : ContextId} (hid : t.Has id) : t'.Has id := by
  cases h with
  | context _ => exact has_push.2 (Nat.lt_succ_of_lt hid)
  | scriptContext _ _ => exact has_push.2 (Nat.lt_succ_of_lt hid)
  | detached => exact has_push.2 (Nat.lt_succ_of_lt hid)
  | group _ => exact has_push.2 (Nat.lt_succ_of_lt hid)
  | script => exact hid
  | member _ => exact hid
  | reparent _ _ _ => exact has_modify.2 hid
  | bind _ => exact has_modify.2 hid
  | unbind _ => exact has_modify.2 hid

theorem Changes.has (h : t.Changes t') {id : ContextId} (hid : t.Has id) : t'.Has id := by
  induction h with
  | refl => exact hid
  | tail _ hlast ih => exact hlast.has ih

/-- Enrolling a script changes no scope of a group. -/
theorem mem_enroll {script : ScriptId} {group : GroupId} {g : Group}
    (h : g ∈ (t.enroll script group).groups) : ∃ f ∈ t.groups, f.context = g.context := by
  obtain ⟨i, hi⟩ := List.mem_iff_getElem?.1 h
  simp only [enroll, List.getElem?_modify] at hi
  obtain ⟨f, hf, rfl⟩ := Option.map_eq_some_iff.1 hi
  refine ⟨f, List.mem_of_getElem? hf, ?_⟩
  split <;> rfl

theorem WellFormed.change (h : t.WellFormed) (hchange : t.Change t') : t'.WellFormed := by
  cases hchange with
  | context hparent =>
    refine h.push ?_ rfl
    rintro p ⟨⟩
    exact hparent
  | scriptContext hparent _ =>
    refine h.push ?_ rfl
    rintro p ⟨⟩
    exact hparent
  | detached =>
    refine h.push ?_ rfl
    rintro p ⟨⟩
  | @group name parent g hg =>
    have hscope : t.Has g.context := h.scopes g (List.mem_of_getElem? hg)
    have hpush := h.push (c := { parent := some g.context, group := some ⟨t.groups.length⟩ })
      (by rintro p ⟨⟩; exact hscope) rfl
    refine hpush.of_contexts_eq rfl fun f hf => ?_
    rw [has_push]
    rcases List.mem_append.1 hf with hf | hf
    · exact Nat.lt_succ_of_lt (h.scopes f hf)
    · rw [List.mem_singleton.1 hf]
      exact Nat.lt_succ_self _
  | script => exact h.of_contexts_eq rfl h.scopes
  | member _ =>
    refine h.of_contexts_eq rfl fun f hf => ?_
    obtain ⟨g, hg, hscope⟩ := mem_enroll hf
    exact hscope ▸ h.scopes g hg
  | reparent hne _ hparent => exact h.modify (fun _ => .inr ⟨hne, hparent⟩) fun _ hc => hc
  | bind _ => exact h.modify (fun _ => .inl rfl) fun _ hc => hc.insert _ _
  | unbind _ => exact h.modify (fun _ => .inl rfl) fun _ hc => hc.erase _

theorem WellFormed.changes (h : t.WellFormed) (hchanges : t.Changes t') : t'.WellFormed := by
  induction hchanges with
  | refl => exact h
  | tail _ hlast ih => exact ih.change hlast

end Tree

/-! ### Mutations -/

namespace Mutation

variable {t t' : Tree} {id : ContextId} {name : String} {n : Nat}

theorem createContext_change {parent : ContextId} (h : createContext parent t = .ok id t') :
    t.Change t' := by
  obtain ⟨hparent, hpush⟩ := createContext_eq_ok_iff.1 h
  cases hpush
  exact .context hparent

theorem createScriptContext_change {parent : ContextId} {script : ScriptId}
    (h : createScriptContext parent script t = .ok id t') : t.Change t' := by
  obtain ⟨hparent, s, hs, hpush⟩ := createScriptContext_eq_ok_iff.1 h
  cases hpush
  exact .scriptContext hparent hs

theorem createDetached_change (h : createDetached t = .ok id t') : t.Change t' := by
  cases createDetached_eq_ok_iff.1 h
  exact .detached

theorem addGroup_change {parent id : GroupId} (h : addGroup name parent t = .ok id t') :
    t.Change t' := by
  obtain ⟨g, hg, rfl, rfl⟩ := addGroup_eq_ok_iff.1 h
  exact .group hg

theorem addScript_change {directory : String} {lines : List String} {group : Option GroupId}
    {id : ScriptId} (h : addScript name directory lines group t = .ok id t') : t.Change t' := by
  obtain ⟨hgroup, rfl, rfl⟩ := addScript_eq_ok_iff.1 h
  cases group with
  | none => exact .script
  | some g =>
    obtain ⟨x, hx⟩ := hgroup g rfl
    exact .member hx

theorem reparent_change {parent : Option ContextId} (h : reparent id parent t = .ok () t') :
    t.Changes t' := by
  obtain ⟨hparent, hid, rfl⟩ := reparent_eq_ok_iff.1 h
  split
  · exact .refl
  · rename_i hne
    exact .single (.reparent hne hid hparent)

theorem addVariable_change {protection : Protection} {value : Value} {added : Bool}
    (h : addVariable id name protection value t = .ok added t') : t.Changes t' := by
  obtain ⟨hid, hpair⟩ := addVariable_eq_ok_iff.1 h
  split at hpair
  · cases hpair
    exact .refl
  · cases hpair
    exact .single (.bind hid)

theorem setVariable_change {value : Value} (h : setVariable id name value n t = .ok () t') :
    t.Change t' := by
  obtain ⟨owner, slot, -, hslot, rfl⟩ := setVariable_eq_ok_iff.1 h
  exact .bind (Tree.has_of_localSlot? hslot)

theorem removeVariable_change {slot : Slot} (h : removeVariable id name n t = .ok slot t') :
    t.Change t' := by
  obtain ⟨owner, -, hslot, rfl⟩ := removeVariable_eq_ok_iff.1 h
  exact .unbind (Tree.has_of_localSlot? hslot)

end Mutation

end Offside.Scope
