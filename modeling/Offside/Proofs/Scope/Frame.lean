import Offside.Proofs.Scope.Lookup

/-!
# `Offside.Proofs.Scope.Frame`: what does not depend on bindings

Two trees with the same frame (`SameFrame`) have the same contexts, scripts and groups and differ at
most in what the contexts bind. Everything but the bindings is then the same in both: parents,
chains, ancestors, and who may see what is bound under a given protection.

A look-up depends on bindings in one way only: on which contexts bind the name. So
`SameFrame.ownerOf_eq` needs to know no more than that. A changed binding leaves the frame alone
(`Rebound.sameFrame`).
-/

set_option autoImplicit false

namespace Offside.Scope

namespace Tree

/-- Two trees are the same but for what their contexts bind. -/
structure SameFrame (t t' : Tree) : Prop where
  /-- There are the same contexts, and they are the same but for their bindings. -/
  contexts : ∀ c, (t'.context? c).map (fun x => { x with bindings := {} }) =
    (t.context? c).map (fun x => { x with bindings := {} })
  /-- There are the same scripts. -/
  scripts : t'.scripts = t.scripts
  /-- There are the same groups. -/
  groups : t'.groups = t.groups

theorem Rebound.sameFrame {t t' : Tree} {id : ContextId} {name : String} {found : Option Slot}
    (h : t.Rebound t' id name found) : t.SameFrame t' where
  contexts := h.frame
  scripts := h.scripts
  groups := h.groups

namespace SameFrame

variable {t t' : Tree}

/-! ### Contexts -/

/-- What does not depend on bindings is the same. -/
theorem bind_eq (h : t.SameFrame t') {α : Type} {g : Context → Option α}
    (hg : ∀ c, g { c with bindings := {} } = g c) (id : ContextId) :
    (t'.context? id).bind g = (t.context? id).bind g := by
  have hframe := congrArg (·.bind g) (h.contexts id)
  simpa only [Option.bind_map, Function.comp_def, hg] using hframe

/-- A context exists in both trees or in neither. -/
theorem context?_cases (h : t.SameFrame t') (id : ContextId) :
    t'.context? id = none ∧ t.context? id = none ∨
      ∃ c' c, t'.context? id = some c' ∧ t.context? id = some c := by
  have hframe := h.contexts id
  cases hc : t.context? id with
  | none =>
    rw [hc] at hframe
    exact .inl ⟨Option.map_eq_none_iff.1 hframe, rfl⟩
  | some c =>
    rw [hc] at hframe
    obtain ⟨c', hc', -⟩ := Option.map_eq_some_iff.1 hframe
    exact .inr ⟨c', c, hc', rfl⟩

theorem length_eq (h : t.SameFrame t') : t'.contexts.length = t.contexts.length := by
  have hall : t'.contexts.map (fun x => { x with bindings := {} }) =
      t.contexts.map (fun x => { x with bindings := {} }) := by
    refine List.ext_getElem? fun i => ?_
    rw [List.getElem?_map, List.getElem?_map]
    exact h.contexts ⟨i⟩
  simpa only [List.length_map] using congrArg List.length hall

theorem parentOf_eq (h : t.SameFrame t') (id : ContextId) : t'.parentOf id = t.parentOf id :=
  h.bind_eq (fun _ => rfl) id

theorem groupOf_eq (h : t.SameFrame t') (id : ContextId) : t'.groupOf id = t.groupOf id :=
  h.bind_eq (fun _ => rfl) id

theorem scriptOf_eq (h : t.SameFrame t') (id : ContextId) : t'.scriptOf id = t.scriptOf id := by
  have hscript : t'.script? = t.script? := by
    funext s
    rw [script?, script?, h.scripts]
  rw [scriptOf, scriptOf, h.bind_eq (fun _ => rfl) id, hscript]

/-! ### Chains -/

theorem chain_eq (h : t.SameFrame t') (budget : Nat) (id : ContextId) :
    t'.chain budget id = t.chain budget id := by
  induction budget generalizing id with
  | zero => rfl
  | succ budget ih => simp only [chain, h.parentOf_eq, ih]

theorem ancestors_eq (h : t.SameFrame t') (id : ContextId) :
    t'.ancestors id = t.ancestors id := by
  rcases h.context?_cases id with ⟨hc', hc⟩ | ⟨c', c, hc', hc⟩
  · rw [ancestors, ancestors, hc', hc]
  · rw [ancestors, ancestors, hc', hc, h.length_eq]
    exact h.chain_eq _ id

theorem climb_eq (h : t.SameFrame t') (n : Nat) (id : ContextId) :
    t'.climb n id = t.climb n id := by
  induction n generalizing id with
  | zero => rfl
  | succ n ih => simp only [climb, h.parentOf_eq, ih]

theorem outward_eq (h : t.SameFrame t') (id : ContextId) (k : Nat) :
    t'.outward id k = t.outward id k := by
  rw [← climb_eq_outward, ← climb_eq_outward, h.climb_eq]

theorem nthParent_eq (h : t.SameFrame t') (id : ContextId) (n : Nat) :
    t'.nthParent id n = t.nthParent id n := by
  unfold nthParent
  rcases h.context?_cases id with ⟨hc', hc⟩ | ⟨c', c, hc', hc⟩
  · rw [context, context, hc', hc]
    rfl
  · rw [bind_of_ok (context_eq_ok hc'), bind_of_ok (context_eq_ok hc), h.climb_eq]

/-! ### Look-ups -/

/-- The owner of a name depends on nothing but which contexts bind it. -/
theorem ownerOf_eq (h : t.SameFrame t') {name : String}
    (hbinds : ∀ c, t'.binds c name = t.binds c name) (id : ContextId) (n : Nat) :
    t'.ownerOf id name n = t.ownerOf id name n := by
  simp only [ownerOf, h.nthParent_eq, h.ancestors_eq, hbinds]

/-- What may be seen does not depend on bindings. -/
theorem canAccess_eq (h : t.SameFrame t') (accessor owner : Option ContextId)
    (protection : Protection) :
    t'.canAccess accessor owner protection = t.canAccess accessor owner protection := by
  simp only [canAccess, staysInGroup, sharesDirectory, h.ancestors_eq, h.groupOf_eq, h.scriptOf_eq]

end SameFrame

end Tree

end Offside.Scope
