import Offside.Proofs.Scope.Coherence
import Offside.Proofs.Scope.Lookup

/-!
# `Offside.Proofs.Scope.Growth`: trees that only grow

Contexts are numbered in the order of their creation, and a new one hangs below one that exists. As
long as no link is changed, all links lead to smaller numbers (`Descending`), and every chain must
end at the global context (`Descending.endsAt_global`). Hanging a context below the global one does
no harm to that (`Descending.hang`).

The scopes of groups are contexts as well, and a new group's scope hangs below the scope of the
group it lies in. As long as no link is changed, scopes hang as groups lie (`ScopesNested`), the
chain of a group's scope passes the scopes of all groups around it, and what these bind is found
from there (`ScopesNested.inherits`).

`Extends` says that nothing else has happened between two trees: what was there is there, and what
is new hangs where it should. It is transitive, and each of the operations that open or bind
something is shown to extend a tree.
-/

set_option autoImplicit false

namespace Offside.Scope

theorem ContextId.global_lt {c : ContextId} (h : c ≠ .global) : ContextId.global < c := by
  obtain ⟨i⟩ := c
  have hi : i ≠ 0 := by
    rintro rfl
    exact h rfl
  exact Nat.pos_of_ne_zero hi

namespace Tree

variable {t t' t'' : Tree} {id c : ContextId} {name : String}

/-! ### Links to smaller numbers -/

/-- Every context but the global one has a parent, and that has a smaller number. -/
def Descending (t : Tree) : Prop :=
  ∀ c, t.Has c → c ≠ .global → ∃ p, t.parentOf c = some p ∧ p < c

theorem descending_new : new.Descending := by
  rintro ⟨i⟩ hc hne
  have hi : i < 1 := hc
  have hzero : i = 0 := by omega
  subst hzero
  exact absurd rfl hne

/-- Every chain ends at the global context, because numbers do not become smaller for ever. -/
theorem Descending.endsAt_global (h : t.Descending) (hroot : t.parentOf .global = none)
    (hid : t.Has id) : t.EndsAt id .global := by
  obtain ⟨i⟩ := id
  induction i using Nat.strong_induction_on with
  | _ i ih =>
    by_cases hglobal : (⟨i⟩ : ContextId) = .global
    · rw [hglobal]
      exact .root hroot
    · obtain ⟨p, hp, hlt⟩ := h ⟨i⟩ hid hglobal
      have hhas : t.Has p := Nat.lt_trans hlt hid
      exact .step hp (ih p.index hlt hhas)

theorem Descending.hang (h : t.Descending) (id : ContextId) : (t.hang id).Descending := by
  intro c hc hne
  have hhas : t.Has c := has_hang.1 hc
  obtain ⟨x, hx⟩ := has_iff.1 hhas
  rw [parentOf, context?_hang, hx]
  by_cases hid : c = id
  · exact ⟨.global, if_pos ⟨hne, hid⟩, ContextId.global_lt hne⟩
  · obtain ⟨p, hp, hlt⟩ := h c hhas hne
    rw [parentOf, hx] at hp
    exact ⟨p, (if_neg fun hc => hid hc.2).trans hp, hlt⟩

/-! ### Scopes of groups -/

/-- One group lies directly in another. -/
def LiesIn (t : Tree) (g p : GroupId) : Prop := ∃ x, t.group? g = some x ∧ x.parent = some p

/-- Where a group lies in another, its scope hangs directly below the scope of that one. -/
def ScopesNested (t : Tree) : Prop :=
  ∀ g x p, t.group? g = some x → x.parent = some p →
    ∃ y, t.group? p = some y ∧ t.parentOf x.context = some y.context

theorem scopesNested_new : new.ScopesNested := by
  intro g x p hx hp
  cases List.mem_singleton.1 (List.mem_of_getElem? hx)
  cases hp

/-- The chain of the scope of a group passes the scope of every group around it. -/
theorem ScopesNested.exists_outward (h : t.ScopesNested) {g a : GroupId} {x : Group}
    (hx : t.group? g = some x) (hlies : Relation.ReflTransGen t.LiesIn g a) :
    ∃ y k, t.group? a = some y ∧ t.outward x.context k = some y.context := by
  induction hlies with
  | refl => exact ⟨x, 0, hx, rfl⟩
  | @tail b a _ hlast ih =>
    -- From one group to the next it is one link more.
    obtain ⟨y, k, hy, hk⟩ := ih
    obtain ⟨y', hy', hparent⟩ := hlast
    cases hy.symm.trans hy'
    obtain ⟨z, hz, hlink⟩ := h b y a hy hparent
    refine ⟨z, k + 1, hz, ?_⟩
    rw [outward, hk]
    exact hlink

/-- The scope of a group inherits from the scopes of the groups around it. -/
structure Inherits (t : Tree) : Prop where
  /-- The chain of the scope of a group passes the scope of every group around it. -/
  scopes : ∀ g x a, t.group? g = some x → Relation.ReflTransGen t.LiesIn g a →
    ∃ y k, t.group? a = some y ∧ t.outward x.context k = some y.context
  /-- So a name that is bound there is found from wherever the chain passes the scope of the
  group. -/
  names : ∀ g x a y, t.group? g = some x → Relation.ReflTransGen t.LiesIn g a →
    t.group? a = some y → ∀ name, t.binds y.context name = true →
    ∀ c ∈ t.contextIds, ∀ k, t.outward c k = some x.context →
    ∃ owner, t.ownerOf c name 0 = .ok owner

theorem ScopesNested.inherits (h : t.ScopesNested) (ht : t.WellFormed) : t.Inherits where
  scopes _ _ _ hx hlies := h.exists_outward hx hlies
  names g x a y hx hlies hy name hbinds c hc k hk := by
    obtain ⟨y', j, hy', hj⟩ := h.exists_outward hx hlies
    cases hy.symm.trans hy'
    -- The links from the context to the scope of the group, and from there to the one around it.
    have hreach : t.outward c (k + j) = some y.context := by
      rw [outward_add, hk]
      exact hj
    exact exists_ownerOf ht (mem_contextIds.1 hc) hreach hbinds

/-! ### Growing -/

/-- What was there is there, and what is new hangs below something older. -/
structure Extends (t t' : Tree) : Prop where
  /-- Contexts keep their parents. -/
  links : ∀ c p, t.parentOf c = some p → t'.parentOf c = some p
  /-- A new context hangs below an older one. -/
  fresh : ∀ c, t'.Has c → ¬ t.Has c → ∃ p, t'.parentOf c = some p ∧ p < c
  /-- Groups keep their scopes and stay in the groups they lie in. -/
  groups : ∀ g x, t.group? g = some x →
    ∃ y, t'.group? g = some y ∧ y.parent = x.parent ∧ y.context = x.context
  /-- The scope of a new group hangs directly below the scope of the group it lies in. -/
  nested : ∀ g y p, t'.group? g = some y → t.group? g = none → y.parent = some p →
    ∃ z, t'.group? p = some z ∧ t'.parentOf y.context = some z.context

namespace Extends

theorem refl (t : Tree) : t.Extends t where
  links _ _ hp := hp
  fresh _ hc hno := absurd hc hno
  groups _ x hx := ⟨x, hx, rfl, rfl⟩
  nested _ _ _ hy hno := by
    rw [hno] at hy
    cases hy

theorem trans (h : t.Extends t') (h' : t'.Extends t'') : t.Extends t'' where
  links c p hp := h'.links c p (h.links c p hp)
  fresh c hc hno := by
    by_cases hmid : t'.Has c
    · obtain ⟨p, hp, hlt⟩ := h.fresh c hmid hno
      exact ⟨p, h'.links c p hp, hlt⟩
    · exact h'.fresh c hc hmid
  groups g x hx := by
    obtain ⟨y, hy, hparent, hscope⟩ := h.groups g x hx
    obtain ⟨z, hz, hparent', hscope'⟩ := h'.groups g y hy
    exact ⟨z, hz, hparent'.trans hparent, hscope'.trans hscope⟩
  nested g z p hz hno hp := by
    cases hy : t'.group? g with
    | none => exact h'.nested g z p hz hy hp
    | some y =>
      -- The group is there in between, and neither it nor the one it lies in has changed since.
      obtain ⟨z', hz', hparent, hscope⟩ := h'.groups g y hy
      cases hz.symm.trans hz'
      obtain ⟨u, hu, hlink⟩ := h.nested g y p hy hno (hparent.symm.trans hp)
      obtain ⟨v, hv, -, hscope'⟩ := h'.groups p u hu
      refine ⟨v, hv, ?_⟩
      rw [hscope, hscope']
      exact h'.links _ _ hlink

/-- Links lead to smaller numbers, if they did before. -/
theorem descending (h : t.Extends t') (hlinks : t.Descending) : t'.Descending := by
  intro c hc hne
  by_cases hold : t.Has c
  · obtain ⟨p, hp, hlt⟩ := hlinks c hold hne
    exact ⟨p, h.links c p hp, hlt⟩
  · exact h.fresh c hc hold

/-- Scopes hang as groups lie, if they did before. -/
theorem scopesNested (h : t.Extends t') (hscopes : t.ScopesNested) : t'.ScopesNested := by
  intro g y p hy hp
  cases hold : t.group? g with
  | none => exact h.nested g y p hy hold hp
  | some x =>
    obtain ⟨y', hy', hparent, hscope⟩ := h.groups g x hold
    cases hy.symm.trans hy'
    obtain ⟨u, hu, hlink⟩ := hscopes g x p hold (hparent.symm.trans hp)
    obtain ⟨v, hv, -, hscope'⟩ := h.groups p u hu
    refine ⟨v, hv, ?_⟩
    rw [hscope, hscope']
    exact h.links _ _ hlink

end Extends

/-! ### What extends a tree -/

/-- A tree with the same contexts below the same parents and the same groups in the same places
extends it. -/
theorem extends_of_parentOf_eq (hhas : ∀ c, t'.Has c → t.Has c)
    (hlinks : ∀ c, t'.parentOf c = t.parentOf c)
    (hgroups : ∀ g, (t'.group? g).map (fun x => (x.parent, x.context)) =
      (t.group? g).map (fun x => (x.parent, x.context))) : t.Extends t' where
  links c p hp := (hlinks c).trans hp
  fresh c hc hno := absurd (hhas c hc) hno
  groups g x hx := by
    have hg := hgroups g
    rw [hx] at hg
    obtain ⟨y, hy, heq⟩ := Option.map_eq_some_iff.1 hg
    exact ⟨y, hy, congrArg Prod.fst heq, congrArg Prod.snd heq⟩
  nested g y _ hy hno := by
    have hg := hgroups g
    rw [hy, hno] at hg
    cases hg

theorem extends_modify (id : ContextId) {f : Context → Context}
    (hf : ∀ x, (f x).parent = x.parent) : t.Extends (t.modify id f) := by
  refine extends_of_parentOf_eq (fun c => has_modify.1) (fun c => ?_) fun _ => rfl
  rw [parentOf, parentOf, context?_modify]
  split
  · rw [Option.bind_map]
    exact congrArg _ (funext hf)
  · rfl

theorem extends_push {x : Context} {p : ContextId} (hp : t.Has p) (hx : x.parent = some p) :
    t.Extends (t.push x).1 where
  links c q hq := (parentOf_push_of_has (has_of_parentOf hq)).trans hq
  fresh c hc hno := by
    have hlast : c.index = t.contexts.length :=
      Nat.le_antisymm (Nat.lt_succ_iff.1 (has_push.1 hc)) (Nat.not_lt.1 hno)
    refine ⟨p, ?_, ?_⟩
    · rw [parentOf, context?_push, if_pos hlast]
      exact hx
    · show p.index < c.index
      rw [hlast]
      exact hp
  groups _ y hy := ⟨y, hy, rfl, rfl⟩
  nested g y _ hy hno := by
    change t.group? g = some y at hy
    rw [hno] at hy
    cases hy

end Tree

namespace Mutation

variable {t t' : Tree} {id : ContextId} {name : String} {n : Nat}

theorem createContext_extends {parent : ContextId} (h : createContext parent t = .ok id t') :
    t.Extends t' := by
  obtain ⟨hparent, hpush⟩ := createContext_eq_ok_iff.1 h
  cases hpush
  exact Tree.extends_push hparent rfl

theorem createScriptContext_extends {parent : ContextId} {script : ScriptId}
    (h : createScriptContext parent script t = .ok id t') : t.Extends t' := by
  obtain ⟨hparent, s, -, hpush⟩ := createScriptContext_eq_ok_iff.1 h
  cases hpush
  exact Tree.extends_push hparent rfl

theorem addGroup_extends (ht : t.WellFormed) {parent g : GroupId}
    (h : addGroup name parent t = .ok g t') : t.Extends t' := by
  obtain ⟨x, hx, rfl, rfl⟩ := addGroup_eq_ok_iff.1 h
  have hpush := Tree.extends_push (t := t)
    (x := { parent := some x.context, group := some ⟨t.groups.length⟩ })
    (ht.scopes x (List.mem_of_getElem? hx)) rfl
  refine ⟨hpush.links, hpush.fresh, fun i y hy => ?_, fun i y p hy hno hp => ?_⟩
  · exact ⟨y, Tree.getElem?_concat_eq_some_iff.2 (.inl hy), rfl, rfl⟩
  · rcases Tree.getElem?_concat_eq_some_iff.1 hy with hold | ⟨-, rfl⟩
    · exact absurd (hold.symm.trans hno) nofun
    -- It is the new group, whose scope is the new context.
    · cases hp
      refine ⟨x, Tree.getElem?_concat_eq_some_iff.2 (.inl hx), ?_⟩
      show ((t.push _).1.context? ⟨t.contexts.length⟩).bind (·.parent) = some x.context
      rw [Tree.context?_push, if_pos rfl]
      rfl

theorem addScript_extends {directory : String} {lines : List String} {group : Option GroupId}
    {s : ScriptId} (h : addScript name directory lines group t = .ok s t') : t.Extends t' := by
  obtain ⟨-, rfl, rfl⟩ := addScript_eq_ok_iff.1 h
  cases group with
  | none => exact Tree.extends_of_parentOf_eq (fun _ hc => hc) (fun _ => rfl) fun _ => rfl
  | some group =>
    refine Tree.extends_of_parentOf_eq (fun _ hc => hc) (fun _ => rfl) fun i => ?_
    show ((t.enroll ⟨t.scripts.length⟩ group).group? i).map _ = _
    rw [Tree.group?_enroll, Option.map_map]
    rfl

theorem addVariable_extends {protection : Protection} {value : Value} {added : Bool}
    (h : addVariable id name protection value t = .ok added t') : t.Extends t' := by
  obtain ⟨-, hpair⟩ := addVariable_eq_ok_iff.1 h
  split at hpair
  · cases hpair
    exact .refl t
  · cases hpair
    exact Tree.extends_modify id fun _ => rfl

theorem setVariable_extends {value : Value} (h : setVariable id name value n t = .ok () t') :
    t.Extends t' := by
  obtain ⟨owner, slot, -, -, rfl⟩ := setVariable_eq_ok_iff.1 h
  exact Tree.extends_modify owner fun _ => rfl

theorem removeVariable_extends {slot : Slot} (h : removeVariable id name n t = .ok slot t') :
    t.Extends t' := by
  obtain ⟨owner, -, -, rfl⟩ := removeVariable_eq_ok_iff.1 h
  exact Tree.extends_modify owner fun _ => rfl

end Mutation

end Offside.Scope
