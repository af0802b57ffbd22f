import Mathlib.Data.List.Perm.Subperm
import Offside.Audit.Report
import Offside.Proofs.Scope.Change

/-!
# `Offside.Proofs.Audit.Inspection`: what an inspection finds

An inspection follows a chain until it ends, comes back to a context already passed, or has
passed as many contexts as there are. `Passing` says what a walk cut in these ways knows, and
`passing_passed` that the third cut never comes first: a walk that passes every context has
nowhere else to go. So an inspection tells exactly whether and where the chain ends.

`inspect_eq_ok` is the specification of an inspection (`Finds`), and `isValid_iff` that of a
report without complaints (`Sound`).
-/

set_option autoImplicit false

namespace Offside.Scope

/-- What a context binds: names with their slots, in order. -/
def Tree.bindingsOf (t : Tree) (id : ContextId) : List (String × Slot) :=
  match t.context? id with
  | some c => c.bindings.entries
  | none => []

theorem Tree.bindingsOf_eq {t : Tree} {id : ContextId} {c : Context}
    (h : t.context? id = some c) : t.bindingsOf id = c.bindings.entries := by
  rw [bindingsOf, h]

end Offside.Scope

namespace Offside.Audit

open Offside.Scope

/-! ### Walking a chain -/

/-- A walk from a context, behind contexts that were seen before, has passed some contexts and
stopped at the last of them. -/
structure Passing (t : Tree) (seen : List ContextId) (budget : Nat) (id : ContextId)
    (found : List ContextId) (last : ContextId) : Prop where
  /-- It begins at the context. -/
  starts : id ∈ found
  /-- It stops at the last. -/
  stops : found.getLast? = some last
  /-- It passes nothing twice. -/
  nodup : found.Nodup
  /-- It passes nothing that was seen before. -/
  fresh : ∀ c ∈ found, c ∉ seen
  /-- It goes from each context to its parent. -/
  links : ∀ c ∈ found, c = last ∨ ∃ d ∈ found, t.parentOf c = some d
  /-- Where the chain of the last ends, the chain of the context does. -/
  ends : ∀ other, t.EndsAt last other → t.EndsAt id other
  /-- It stops for want of a parent, at a parent seen before, or with its budget spent. -/
  cut : ∀ p, t.parentOf last = some p → p ∈ found ++ seen ∨ found.length = budget

/-- A walk that stops where it begins. -/
theorem Passing.single {t : Tree} {seen : List ContextId} {budget : Nat} {id : ContextId}
    (hid : id ∉ seen) (hcut : ∀ p, t.parentOf id = some p → p ∈ id :: seen ∨ 1 = budget) :
    Passing t seen budget id [id] id where
  starts := List.mem_singleton_self id
  stops := rfl
  nodup := List.nodup_singleton id
  fresh _ hc := List.mem_singleton.1 hc ▸ hid
  links _ hc := .inl (List.mem_singleton.1 hc)
  ends _ h := h
  cut := hcut

/-- A walk that goes on from the parent. -/
theorem Passing.step {t : Tree} {seen found : List ContextId} {budget : Nat}
    {id p last : ContextId} (hid : id ∉ seen) (hp : t.parentOf id = some p)
    (h : Passing t (id :: seen) budget p found last) :
    Passing t seen (budget + 1) id (id :: found) last where
  starts := List.mem_cons_self
  stops := by rw [List.getLast?_cons, h.stops, Option.getD_some]
  nodup := List.nodup_cons.2 ⟨fun hmem => h.fresh id hmem List.mem_cons_self, h.nodup⟩
  fresh c hc := by
    rcases List.mem_cons.1 hc with rfl | hc
    · exact hid
    · exact fun hseen => h.fresh c hc (List.mem_cons_of_mem id hseen)
  links c hc := by
    rcases List.mem_cons.1 hc with rfl | hc
    · exact .inr ⟨p, List.mem_cons_of_mem c h.starts, hp⟩
    · refine (h.links c hc).imp_right ?_
      rintro ⟨d, hd, hparent⟩
      exact ⟨d, List.mem_cons_of_mem id hd, hparent⟩
  ends other hother := .step hp (h.ends other hother)
  cut q hq := by
    refine (h.cut q hq).imp (fun hmem => ?_) (congrArg Nat.succ)
    rw [List.mem_append, List.mem_cons] at hmem
    rw [List.cons_append, List.mem_cons, List.mem_append]
    tauto

theorem untilRepeat_chain_of_mem {t : Tree} {seen : List ContextId} {id : ContextId}
    (n : Nat) (h : id ∈ seen) : untilRepeat seen (t.chain n id) = [] := by
  cases n with
  | zero => rfl
  | succ n => exact if_pos h

theorem passing_untilRepeat (t : Tree) (n : Nat) {seen : List ContextId} {id : ContextId}
    (hid : id ∉ seen) :
    ∃ last, Passing t seen (n + 1) id (untilRepeat seen (t.chain (n + 1) id)) last := by
  induction n generalizing seen id with
  | zero =>
    have hwalk : untilRepeat seen (t.chain 1 id) = [id] := by
      rw [Tree.chain, untilRepeat, if_neg hid]
      cases t.parentOf id with
      | none => rfl
      | some p => rfl
    rw [hwalk]
    exact ⟨id, .single hid fun _ _ => .inr rfl⟩
  | succ n ih =>
    rw [Tree.chain, untilRepeat, if_neg hid]
    cases hp : t.parentOf id with
    | none =>
      refine ⟨id, .single hid fun p hsome => ?_⟩
      rw [hp] at hsome
      cases hsome
    | some p =>
      by_cases hseen : p ∈ id :: seen
      -- The parent was passed before, so the walk has come round.
      · show ∃ last, Passing t seen (n + 1 + 1) id
          (id :: untilRepeat (id :: seen) (t.chain (n + 1) p)) last
        rw [untilRepeat_chain_of_mem (n + 1) hseen]
        refine ⟨id, .single hid fun q hq => ?_⟩
        rw [hp] at hq
        cases hq
        exact .inl hseen
      · obtain ⟨last, hrest⟩ := ih hseen
        exact ⟨last, hrest.step hid hp⟩

/-! ### The whole walk -/

/-- A walk that has passed as many contexts as a tree has, all of them its own, has passed
every context. -/
theorem mem_of_length_eq {t : Tree} {found : List ContextId} (hnodup : found.Nodup)
    (hhas : ∀ c ∈ found, t.Has c) (hlength : found.length = t.contexts.length) {id : ContextId}
    (hid : t.Has id) : id ∈ found := by
  have hsubset : found ⊆ t.contextIds := fun c hc => Tree.mem_contextIds.2 (hhas c hc)
  have hids : t.contextIds.length = found.length := by
    rw [Tree.contextIds, List.length_map, List.length_range, hlength]
  have hperm := (hnodup.subperm hsubset).perm_of_length_le (Nat.le_of_eq hids)
  exact hperm.mem_iff.2 (Tree.mem_contextIds.2 hid)

/-- The walk of an inspection stops for want of a parent or at a parent it has passed, for if
it has passed as many contexts as there are, it has passed them all. -/
theorem passing_passed {t : Tree} (ht : t.WellFormed) {id : ContextId} (hid : t.Has id) :
    ∃ last, Passing t [] t.contexts.length id (passed t id) last ∧
      ∀ p, t.parentOf last = some p → p ∈ passed t id := by
  obtain ⟨c, hc⟩ := Tree.has_iff.1 hid
  obtain ⟨n, hn⟩ : ∃ n, t.contexts.length = n + 1 :=
    ⟨t.contexts.length - 1, by have : id.index < t.contexts.length := hid; omega⟩
  have hwalk : passed t id = untilRepeat [] (t.chain (n + 1) id) := by
    rw [passed, Tree.ancestors, hc, hn]
  rw [hwalk, hn]
  obtain ⟨last, h⟩ := passing_untilRepeat t n (List.not_mem_nil (a := id))
  refine ⟨last, h, fun p hp => ?_⟩
  rcases h.cut p hp with hmem | hlength
  · rwa [List.append_nil] at hmem
  · refine mem_of_length_eq h.nodup (fun d hd => ?_) (hlength.trans hn.symm)
      (ht.parents last p hp)
    rcases h.links d hd with rfl | ⟨e, -, he⟩
    · exact Tree.has_of_parentOf hp
    · exact Tree.has_of_parentOf he

/-- If a walk stops for want of a parent, the chain ends there, and if it stops at a parent it
has passed, the chain has no end. -/
theorem Passing.end_or_endless {t : Tree} {seen found : List ContextId} {budget : Nat}
    {id last : ContextId} (h : Passing t seen budget id found last)
    (hround : ∀ p, t.parentOf last = some p → p ∈ found) :
    t.parentOf last = none ∧ t.EndsAt id last ∨
      (∃ p ∈ found, t.parentOf last = some p) ∧ ∀ other, ¬ t.EndsAt id other := by
  cases hparent : t.parentOf last with
  | none => exact .inl ⟨rfl, h.ends last (.root hparent)⟩
  | some p =>
    have hclosed : ∀ d ∈ found, ∃ e, t.parentOf d = some e ∧ e ∈ found := by
      intro d hd
      rcases h.links d hd with rfl | ⟨e, he, hlink⟩
      · exact ⟨p, hparent, hround p hparent⟩
      · exact ⟨e, hlink, he⟩
    exact .inr ⟨⟨p, hround p hparent, rfl⟩, fun other =>
      Tree.not_endsAt_of_closed hclosed h.starts⟩

/-! ### Inspections -/

/-- What a report about a context of a tree should say. -/
structure Finds (t : Tree) (id : ContextId) (r : Report) : Prop where
  /-- A chain is circular if it has no end. -/
  circular : r.circular = true ↔ ∀ last, ¬ t.EndsAt id last
  /-- The final parent is the end of the chain. -/
  finalParent : ∀ last, r.finalParent = some last ↔ t.EndsAt id last
  /-- The empty name is bound. -/
  emptyName : r.emptyName = true ↔ "" ∈ (t.bindingsOf id).map Prod.fst
  /-- The names bound to null, in order. -/
  nullNames : r.nullNames = ((t.bindingsOf id).filter (·.2.value.isNull)).map Prod.fst

/-- A sound context has a chain that ends at the global context, and binds neither the empty
name nor null. -/
structure Sound (t : Tree) (id : ContextId) : Prop where
  /-- The chain ends at the global context. -/
  rooted : t.EndsAt id .global
  /-- The names are not empty and what they are bound to is not null. -/
  bindings : ∀ e ∈ t.bindingsOf id, e.1 ≠ "" ∧ e.2.value.isNull = false

/-- An inspection of a context finds out what there is to find. -/
theorem inspect_eq_ok {t : Tree} (ht : t.WellFormed) {id : ContextId} (hid : t.Has id) :
    ∃ r, inspect t id = .ok r ∧ Finds t id r := by
  obtain ⟨c, hc⟩ := Tree.has_iff.1 hid
  obtain ⟨last, hpassing, hround⟩ := passing_passed ht hid
  have hbindings := Tree.bindingsOf_eq hc
  have hname : c.bindings.contains "" = true ↔ "" ∈ (t.bindingsOf id).map Prod.fst := by
    rw [hbindings]
    exact Register.mem_keys_iff.symm
  have hlast : (passed t id).getLast?.getD id = last := by
    rw [hpassing.stops, Option.getD_some]
  have hinspect : inspect t id = .ok
      { circular := (t.parentOf last).any (fun p => (passed t id).contains p)
        emptyName := c.bindings.contains ""
        nullNames := (c.bindings.entries.filter (fun e => e.2.value.isNull)).map Prod.fst
        finalParent :=
          if (t.parentOf last).any (fun p => (passed t id).contains p) then none
          else some last } := by
    subst hlast
    unfold inspect
    rw [Tree.context_eq_ok hc]
    rfl
  refine ⟨_, hinspect, ?_⟩
  rcases hpassing.end_or_endless hround with ⟨hparent, hend⟩ | ⟨⟨p, hp, hparent⟩, hno⟩
  · rw [hparent, Option.any_none, if_neg Bool.false_ne_true]
    refine ⟨?_, fun other => ?_, hname, by rw [hbindings]⟩
    · exact ⟨fun h => absurd h Bool.false_ne_true, fun h => absurd hend (h last)⟩
    · constructor
      · rintro ⟨⟩
        exact hend
      · exact fun hother => congrArg some (hother.unique hend)
  · rw [hparent, Option.any_some, List.contains_iff_mem.2 hp, if_pos rfl]
    refine ⟨⟨fun _ => hno, fun _ => rfl⟩, fun other => ?_, hname, by rw [hbindings]⟩
    exact ⟨fun h => (nomatch h), fun h => absurd h (hno other)⟩

theorem inspect_eq_error {t : Tree} {id : ContextId} (hid : ¬ t.Has id) :
    inspect t id = .error (.unknownContext id) := by
  unfold inspect
  rw [Tree.context_eq_error hid]
  rfl

theorem finds_of_inspect {t : Tree} (ht : t.WellFormed) {id : ContextId} {r : Report}
    (h : inspect t id = .ok r) : t.Has id ∧ Finds t id r := by
  by_cases hid : t.Has id
  · obtain ⟨found, hfound, hfinds⟩ := inspect_eq_ok ht hid
    rw [h] at hfound
    cases hfound
    exact ⟨hid, hfinds⟩
  · rw [inspect_eq_error hid] at h
    cases h

theorem Report.isValid_iff {r : Report} :
    r.isValid = true ↔ r.circular = false ∧ r.emptyName = false ∧ r.nullNames = [] ∧
      r.endsElsewhere = false := by
  simp [isValid, hasNull, and_assoc]

namespace Finds

variable {t : Tree} {id : ContextId} {r : Report}

theorem chain_iff (h : Finds t id r) :
    r.circular = false ∧ r.endsElsewhere = false ↔ t.EndsAt id .global := by
  constructor
  · rintro ⟨hcircular, helse⟩
    obtain ⟨last, hend⟩ : ∃ last, t.EndsAt id last := by
      by_contra hno
      rw [h.circular.2 (not_exists.1 hno)] at hcircular
      cases hcircular
    rw [Report.endsElsewhere, (h.finalParent last).2 hend, Option.any_some,
      decide_eq_false_iff_not, not_not] at helse
    exact helse ▸ hend
  · intro hend
    constructor
    · rw [Bool.eq_false_iff]
      intro hcircular
      exact h.circular.1 hcircular .global hend
    · rw [Report.endsElsewhere, (h.finalParent .global).2 hend]
      rfl

/-- A report has no complaints exactly about a sound context. -/
theorem isValid_iff (h : Finds t id r) : r.isValid = true ↔ Sound t id := by
  have hname : r.emptyName = false ↔ ∀ e ∈ t.bindingsOf id, e.1 ≠ "" := by
    rw [← Bool.not_eq_true, h.emptyName, List.mem_map]
    exact ⟨fun hno e he heq => hno ⟨e, he, heq⟩, fun hall ⟨e, he, heq⟩ => hall e he heq⟩
  have hnull : r.nullNames = [] ↔ ∀ e ∈ t.bindingsOf id, e.2.value.isNull = false := by
    rw [h.nullNames, List.map_eq_nil_iff, List.filter_eq_nil_iff]
    simp only [Bool.not_eq_true]
  rw [Report.isValid_iff, hname, hnull]
  constructor
  · rintro ⟨hcircular, hnames, hnulls, helse⟩
    exact ⟨h.chain_iff.1 ⟨hcircular, helse⟩, fun e he => ⟨hnames e he, hnulls e he⟩⟩
  · rintro ⟨hrooted, hbindings⟩
    obtain ⟨hcircular, helse⟩ := h.chain_iff.2 hrooted
    exact ⟨hcircular, fun e he => (hbindings e he).1, fun e he => (hbindings e he).2, helse⟩

end Finds

/-- An inspection is passed exactly by the sound contexts of a tree. -/
theorem inspect_isValid_iff {t : Tree} (ht : t.WellFormed) {id : ContextId} :
    (∃ r, inspect t id = .ok r ∧ r.isValid = true) ↔ t.Has id ∧ Sound t id := by
  constructor
  · rintro ⟨r, hr, hvalid⟩
    obtain ⟨hid, hfinds⟩ := finds_of_inspect ht hr
    exact ⟨hid, hfinds.isValid_iff.1 hvalid⟩
  · rintro ⟨hid, hsound⟩
    obtain ⟨r, hr, hfinds⟩ := inspect_eq_ok ht hid
    exact ⟨r, hr, hfinds.isValid_iff.2 hsound⟩

end Offside.Audit
