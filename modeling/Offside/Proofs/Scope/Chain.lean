import Mathlib.Data.List.Nodup
import Offside.Scope.Lookup

/-!
# `Offside.Proofs.Scope.Chain`: where chains end

Parent links may point anywhere, so a chain either ends at a context without a parent or goes
round for ever. `EndsAt` is the first case, and ends are unique (`EndsAt.unique`); a set of
contexts that all have their parents within the set rules it out (`not_endsAt_of_closed`).

`Rehung` relates two trees where the second hangs some contexts directly below the global one
and leaves all other links alone. That never hurts: a chain that ended still ends, where it did
or at the global context (`EndsAt.rehung`).
-/

set_option autoImplicit false

namespace Offside.Scope

namespace Tree

/-! ### Contexts by handle -/

/-- A handle that belongs to a context of the tree. -/
def Has (t : Tree) (id : ContextId) : Prop := id.index < t.contexts.length

theorem has_iff {t : Tree} {id : ContextId} : t.Has id ↔ ∃ c, t.context? id = some c := by
  constructor
  · intro h
    exact ⟨_, List.getElem?_eq_getElem h⟩
  · rintro ⟨c, hc⟩
    exact (List.getElem?_eq_some_iff.1 hc).1

theorem mem_contextIds {t : Tree} {id : ContextId} : id ∈ t.contextIds ↔ t.Has id := by
  obtain ⟨index⟩ := id
  simp [contextIds, Has]

theorem context_eq_ok {t : Tree} {id : ContextId} {c : Context} (h : t.context? id = some c) :
    t.context id = .ok c := by
  rw [context, h]

theorem context_eq_error {t : Tree} {id : ContextId} (h : ¬ t.Has id) :
    t.context id = .error (.unknownContext id) := by
  have hnone : t.context? id = none := by
    cases hc : t.context? id with
    | none => rfl
    | some c => exact absurd (has_iff.2 ⟨c, hc⟩) h
  rw [context, hnone]

theorem context_eq_ok_iff {t : Tree} {id : ContextId} {c : Context} :
    t.context id = .ok c ↔ t.context? id = some c := by
  rw [context]
  cases t.context? id with
  | none => simp
  | some d => simp

/-- Only a context of the tree has a parent. -/
theorem has_of_parentOf {t : Tree} {id p : ContextId} (h : t.parentOf id = some p) :
    t.Has id := by
  obtain ⟨c, hc, -⟩ := Option.bind_eq_some_iff.1 h
  exact has_iff.2 ⟨c, hc⟩

/-! ### Ends -/

/-- The chain of a context ends at a context without a parent. -/
inductive EndsAt (t : Tree) : ContextId → ContextId → Prop
  | root {id : ContextId} : t.parentOf id = none → EndsAt t id id
  | step {id parent last : ContextId} :
      t.parentOf id = some parent → EndsAt t parent last → EndsAt t id last

namespace EndsAt

variable {t t' : Tree} {id last : ContextId}

theorem parentOf_eq_none (h : t.EndsAt id last) : t.parentOf last = none := by
  induction h with
  | root hnone => exact hnone
  | step _ _ ih => exact ih

/-- A chain has one end. -/
theorem unique {other : ContextId} (h : t.EndsAt id last) (hother : t.EndsAt id other) :
    other = last := by
  induction h with
  | root hnone =>
    cases hother with
    | root _ => rfl
    | step hparent _ =>
      rw [hnone] at hparent
      cases hparent
  | step hparent _ ih =>
    cases hother with
    | root hnone =>
      rw [hnone] at hparent
      cases hparent
    | step hparent' hrest =>
      rw [hparent] at hparent'
      cases hparent'
      exact ih hrest

end EndsAt

/-- Contexts that all have their parents among them have no end. -/
theorem not_endsAt_of_closed {t : Tree} {p : ContextId → Prop}
    (closed : ∀ c, p c → ∃ d, t.parentOf c = some d ∧ p d) {id last : ContextId} (hid : p id) :
    ¬ t.EndsAt id last := by
  intro h
  induction h with
  | @root id hnone =>
    obtain ⟨d, hd, -⟩ := closed id hid
    rw [hnone] at hd
    cases hd
  | @step id parent last hparent _ ih =>
    obtain ⟨d, hd, hp⟩ := closed id hid
    rw [hparent] at hd
    cases hd
    exact ih hp

/-! ### Hanging contexts below the global one -/

/-- Some contexts have come to hang directly below the global one, which has no parent. -/
structure Rehung (t t' : Tree) : Prop where
  /-- The global context has no parent. -/
  rootless : t'.parentOf .global = none
  /-- A context keeps its parent or hangs below the global one. -/
  link : ∀ c, t'.parentOf c = t.parentOf c ∨ t'.parentOf c = some .global

theorem Rehung.trans {t t' t'' : Tree} (h : t.Rehung t') (h' : t'.Rehung t'') :
    t.Rehung t'' where
  rootless := h'.rootless
  link c := by
    rcases h'.link c with hc | hc
    · rw [hc]
      exact h.link c
    · exact .inr hc

/-- A context directly below the global one. -/
theorem endsAt_global_of_parentOf {t : Tree} {id : ContextId}
    (hroot : t.parentOf .global = none) (h : t.parentOf id = some .global) :
    t.EndsAt id .global :=
  .step h (.root hroot)

/-- A chain that ended still ends, where it did or at the global context. -/
theorem EndsAt.rehung {t t' : Tree} {id last : ContextId} (h : t.EndsAt id last)
    (hre : t.Rehung t') : t'.EndsAt id last ∨ t'.EndsAt id .global := by
  induction h with
  | @root id hnone =>
    rcases hre.link id with hsame | hglobal
    · exact .inl (.root (hsame.trans hnone))
    · exact .inr (endsAt_global_of_parentOf hre.rootless hglobal)
  | @step id parent last hparent _ ih =>
    rcases hre.link id with hsame | hglobal
    · exact ih.imp (.step (hsame.trans hparent)) (.step (hsame.trans hparent))
    · exact .inr (endsAt_global_of_parentOf hre.rootless hglobal)

/-- A chain whose end comes to hang below the global context ends there. -/
theorem EndsAt.rehung_global {t t' : Tree} {id last : ContextId} (h : t.EndsAt id last)
    (hre : t.Rehung t') (hlast : last = .global ∨ t'.parentOf last = some .global) :
    t'.EndsAt id .global := by
  rcases h.rehung hre with hend | hend
  · rcases hlast with rfl | hlast
    · exact hend
    · rw [hend.parentOf_eq_none] at hlast
      cases hlast
  · exact hend

end Tree

end Offside.Scope
