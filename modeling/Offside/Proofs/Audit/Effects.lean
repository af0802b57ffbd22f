import Offside.Proofs.Audit.Edits
import Offside.Proofs.Audit.Mending

/-!
# `Offside.Proofs.Audit.Effects`: what an audit does to a world

`verify` and `repair` are specified by what they answer and the world they leave behind:
`verify_eq` and `verify_eq_error`, and the four cases of a repair, `repair_of_logged`,
`repair_of_sound`, `repair_of_unsound` and `repair_of_unknown`. `verify_cases` and `repair_cases`
say that in a well-formed world nothing else can come of them.

An effect that fails leaves a world behind as well (`Effect.behind`). What holds between the world
before an effect and the one behind it carries over to a row of effects if it is transitive
(`Effect.behind_bind`).

In a well-formed world (`World.WellFormed`) the tree is well formed and the contexts that the
log speaks of exist, so that no entry of the log is impossible to mend. Every operation, also one
that fails, leaves such a world behind (`Operation.keeps`), so that every reachable world is well
formed (`World.Reachable.wellFormed`).
-/

set_option autoImplicit false

namespace Offside.Scope

instance : Trans (α := ContextId) (· < ·) (· < ·) (· < ·) where
  trans := Nat.lt_trans

instance : Std.Irrefl (α := ContextId) (· < ·) where
  irrefl c := Nat.lt_irrefl c.index

instance : Std.Trichotomous (α := ContextId) (· < ·) where
  trichotomous c d hcd hdc := by
    obtain ⟨i⟩ := c
    obtain ⟨j⟩ := d
    exact congrArg ContextId.mk (Nat.le_antisymm (Nat.not_lt.1 hdc) (Nat.not_lt.1 hcd))

end Offside.Scope

namespace Offside.Audit

open Offside.Scope Effect

/-! ### Verifying -/

theorem verify_eq {w : World} {id : ContextId} {r : Report} (h : inspect w.tree id = .ok r) :
    verify id w =
      if r.isValid then .ok true w else .ok false { w with log := w.log.insert id r } := by
  have hask : ask (inspect · id) w = .ok r w := by rw [ask, h]
  unfold verify
  rw [bind_eq_of_ok hask]
  cases r.isValid <;> rfl

theorem verify_eq_error {w : World} {id : ContextId} (h : ¬ w.tree.Has id) :
    verify id w = .error (.unknownContext id) w := by
  have hask : ask (inspect · id) w = .error (.unknownContext id) w := by
    rw [ask, inspect_eq_error h]
  exact bind_eq_of_error hask

/-! ### Repairing -/

/-- The second half of a repair: what the log says is cleared and mended. -/
def mendLogged (id : ContextId) : Effect Bool := do
  match ← logged? id with
  | none => return false
  | some r =>
    clear id
    mend id r
    return true

section repair

variable {w : World} {id : ContextId} {r : Report}

theorem mendLogged_eq_ok (ht : w.tree.WellFormed) (hlog : w.log.find? id = some r)
    (hr : r.Fits w.tree id) :
    mendLogged id w = .ok true { tree := r.amend id w.tree, log := w.log.erase id } := by
  have hlogged : logged? id w = .ok (some r) w := by rw [logged?, hlog]
  have hclear : clear id w = .ok () { w with log := w.log.erase id } := rfl
  unfold mendLogged
  rw [bind_eq_of_ok hlogged]
  dsimp only
  rw [bind_eq_of_ok hclear]
  have hmend := mend_eq_ok (w := { w with log := w.log.erase id }) ht hr
  rw [bind_eq_of_ok hmend]
  rfl

/-- The log decides, if it says something. -/
theorem repair_of_logged (ht : w.tree.WellFormed) (hlog : w.log.find? id = some r)
    (hr : r.Fits w.tree id) :
    repair id w = .ok true { tree := r.amend id w.tree, log := w.log.erase id } := by
  have hlogged : logged? id w = .ok (some r) w := by rw [logged?, hlog]
  unfold repair
  rw [bind_eq_of_ok hlogged]
  exact mendLogged_eq_ok ht hlog hr

theorem repair_of_sound (hlog : w.log.find? id = none) (h : inspect w.tree id = .ok r)
    (hvalid : r.isValid = true) : repair id w = .ok false w := by
  have hlogged : logged? id w = .ok none w := by rw [logged?, hlog]
  have hverify : verify id w = .ok true w := by rw [verify_eq h, hvalid, if_pos rfl]
  unfold repair
  rw [bind_eq_of_ok hlogged]
  exact bind_eq_of_ok hverify

/-- Without a report a new one is mended, and the log is as before. -/
theorem repair_of_unsound (ht : w.tree.WellFormed) (hlog : w.log.find? id = none)
    (h : inspect w.tree id = .ok r) (hvalid : r.isValid = false) (hr : r.Fits w.tree id) :
    repair id w = .ok true { w with tree := r.amend id w.tree } := by
  have hlogged : logged? id w = .ok none w := by rw [logged?, hlog]
  have hverify : verify id w = .ok false { w with log := w.log.insert id r } := by
    rw [verify_eq h, hvalid]
    rfl
  have hfound : (w.log.insert id r).find? id = some r := by
    rw [Register.find?_insert, if_pos rfl]
  have hcleared : (w.log.insert id r).erase id = w.log := by
    rw [Register.erase_insert, Register.erase_eq_self hlog]
  have hmend := mendLogged_eq_ok (w := { w with log := w.log.insert id r }) ht hfound hr
  rw [hcleared] at hmend
  unfold repair
  rw [bind_eq_of_ok hlogged]
  exact (bind_eq_of_ok hverify).trans hmend

theorem repair_of_unknown (hlog : w.log.find? id = none) (h : ¬ w.tree.Has id) :
    repair id w = .error (.unknownContext id) w := by
  have hlogged : logged? id w = .ok none w := by rw [logged?, hlog]
  unfold repair
  rw [bind_eq_of_ok hlogged]
  exact bind_eq_of_error (verify_eq_error h)

end repair

/-! ### Well-formed worlds -/

/-- What every world that a program and its audits can make satisfies. -/
structure World.WellFormed (w : World) : Prop where
  /-- The tree is well formed. -/
  tree : w.tree.WellFormed
  /-- The log is in order. -/
  ordered : w.log.Ordered
  /-- What is logged can be mended. -/
  logged : ∀ id r, w.log.find? id = some r → r.Fits w.tree id

theorem Report.Fits.mono {r : Report} {t t' : Tree} {id : ContextId} (h : r.Fits t id)
    (hhas : ∀ c, t.Has c → t'.Has c) : r.Fits t' id where
  about := hhas id h.about
  finalParent last hlast := hhas last (h.finalParent last hlast)

/-- The contexts that an inspection names exist. -/
theorem Finds.fits {t : Tree} {id : ContextId} {r : Report} (h : Finds t id r)
    (ht : t.WellFormed) (hid : t.Has id) : r.Fits t id where
  about := hid
  finalParent last hlast := ht.has_of_endsAt ((h.finalParent last).1 hlast) hid

namespace World

theorem wellFormed_new : WellFormed {} where
  tree := Tree.wellFormed_new
  ordered := Register.ordered_empty
  logged _ _ h := nomatch h

variable {w : World} {id : ContextId} {r : Report}

theorem WellFormed.changes {t : Tree} (h : w.WellFormed) (ht : w.tree.Changes t) :
    WellFormed { w with tree := t } where
  tree := h.tree.changes ht
  ordered := h.ordered
  logged id r hr := (h.logged id r hr).mono fun _ => ht.has

theorem WellFormed.record (h : w.WellFormed) (hr : r.Fits w.tree id) :
    WellFormed { w with log := w.log.insert id r } where
  tree := h.tree
  ordered := h.ordered.insert id r
  logged c s hs := by
    rw [Register.find?_insert] at hs
    split at hs
    · rename_i hc
      cases hs
      exact hc ▸ hr
    · exact h.logged c s hs

theorem WellFormed.amend (h : w.WellFormed) (r : Report) (id : ContextId) :
    WellFormed { w with tree := r.amend id w.tree } where
  tree := wellFormed_amend h.tree
  ordered := h.ordered
  logged c s hs := (h.logged c s hs).mono fun _ => has_amend.2

theorem WellFormed.clear (h : w.WellFormed) (id : ContextId) :
    WellFormed { w with log := w.log.erase id } where
  tree := h.tree
  ordered := h.ordered.erase id
  logged c s hs := by
    rw [Register.find?_erase] at hs
    split at hs
    · cases hs
    · exact h.logged c s hs

end World

/-! ### All that verifying and repairing can do -/

section

variable {w : World}

/-- A verification finds nothing wrong, or logs what it finds, or there is no such context. -/
theorem verify_cases (hw : w.WellFormed) (id : ContextId) :
    (∃ r, inspect w.tree id = .ok r ∧ r.isValid = true ∧ verify id w = .ok true w) ∨
      (∃ r, inspect w.tree id = .ok r ∧ r.isValid = false ∧ r.Fits w.tree id ∧
        verify id w = .ok false { w with log := w.log.insert id r }) ∨
      ¬ w.tree.Has id ∧ verify id w = .error (.unknownContext id) w := by
  by_cases hid : w.tree.Has id
  · obtain ⟨r, hr, hfinds⟩ := inspect_eq_ok hw.tree hid
    cases hvalid : r.isValid with
    | true => exact .inl ⟨r, hr, hvalid, by rw [verify_eq hr, hvalid, if_pos rfl]⟩
    | false =>
      refine .inr (.inl ⟨r, hr, hvalid, hfinds.fits hw.tree hid, ?_⟩)
      rw [verify_eq hr, hvalid]
      rfl
  · exact .inr (.inr ⟨hid, verify_eq_error hid⟩)

/-- A repair finds nothing to do, or mends what is logged or else what an inspection finds, or there
is no such context. -/
theorem repair_cases (hw : w.WellFormed) (id : ContextId) :
    (∃ r, w.log.find? id = none ∧ inspect w.tree id = .ok r ∧ r.isValid = true ∧
        repair id w = .ok false w) ∨
      (∃ r, (w.log.find? id = some r ∨
          w.log.find? id = none ∧ inspect w.tree id = .ok r ∧ r.isValid = false) ∧
        r.Fits w.tree id ∧
        repair id w = .ok true { tree := r.amend id w.tree, log := w.log.erase id }) ∨
      w.log.find? id = none ∧ ¬ w.tree.Has id ∧
        repair id w = .error (.unknownContext id) w := by
  cases hlog : w.log.find? id with
  | some r =>
    have hfits := hw.logged id r hlog
    exact .inr (.inl ⟨r, .inl rfl, hfits, repair_of_logged hw.tree hlog hfits⟩)
  | none =>
    by_cases hid : w.tree.Has id
    · obtain ⟨r, hr, hfinds⟩ := inspect_eq_ok hw.tree hid
      cases hvalid : r.isValid with
      | true => exact .inl ⟨r, rfl, hr, hvalid, repair_of_sound hlog hr hvalid⟩
      | false =>
        have hfits := hfinds.fits hw.tree hid
        refine .inr (.inl ⟨r, .inr ⟨rfl, hr, hvalid⟩, hfits, ?_⟩)
        rw [repair_of_unsound hw.tree hlog hr hvalid hfits, Register.erase_eq_self hlog]
    · exact .inr (.inr ⟨rfl, hid, repair_of_unknown hlog hid⟩)

end

/-! ### What an effect leaves behind -/

namespace Effect

variable {α β : Type}

/-- The world that an effect leaves behind, whether it succeeds or not. -/
def behind (x : Effect α) (w : World) : World :=
  match x w with
  | .ok _ w' => w'
  | .error _ w' => w'

/-- If each of two effects relates the world that it finds to the one that it leaves behind, so does
the one followed by the other. -/
theorem behind_bind {R : World → World → Prop} (htrans : ∀ w w' w'', R w w' → R w' w'' → R w w'')
    {x : Effect α} {f : α → Effect β} (hx : ∀ w, R w (x.behind w))
    (hf : ∀ a w, R w ((f a).behind w)) (w : World) : R w ((x >>= f).behind w) := by
  have hfirst := hx w
  rw [behind] at hfirst ⊢
  cases hresult : x w with
  | ok a w' =>
    rw [hresult] at hfirst
    rw [bind_eq_of_ok hresult]
    exact htrans w w' _ hfirst (hf a w')
  | error e w' =>
    rw [hresult] at hfirst
    rw [bind_eq_of_error hresult]
    exact hfirst

end Effect

/-- If each step of a mend relates the world that it finds to the one that it leaves behind, so does
the mend, however far it gets. -/
theorem mend_behind {R : World → World → Prop} (htrans : ∀ w w' w'', R w w' → R w' w'' → R w w'')
    {id : ContextId} {r : Report} (horphan : ∀ c w, R w ((mutate (.orphan c)).behind w))
    (hnames : ∀ w, R w ((mutate (.removeNames id r.badNames)).behind w)) (w : World) :
    R w ((mend id r).behind w) := by
  have hcircular (rest : Effect Unit) (hrest : ∀ w, R w (rest.behind w)) (w : World) :
      R w ((if r.circular then do mutate (.orphan id); rest else rest).behind w) := by
    split
    · exact behind_bind htrans (horphan id) (fun _ => hrest) w
    · exact hrest w
  unfold mend
  cases r.finalParent with
  | none => exact hcircular _ hnames w
  | some last =>
    dsimp only
    split
    · exact behind_bind htrans (horphan last) (fun _ => hcircular _ hnames) w
    · exact hcircular _ hnames w

/-! ### Effects that keep a world well formed -/

/-- Whether it succeeds or not, the effect leaves a well-formed world behind. -/
def Effect.Keeps {α : Type} (x : Effect α) : Prop :=
  ∀ w : World, w.WellFormed →
    match x w with
    | .ok _ w' => w'.WellFormed
    | .error _ w' => w'.WellFormed

namespace Effect

variable {α β : Type}

theorem keeps_iff {x : Effect α} :
    Keeps x ↔ ∀ w : World, w.WellFormed → (x.behind w).WellFormed := by
  refine forall_congr' fun w => imp_congr_right fun _ => ?_
  rw [behind]
  cases x w <;> rfl

theorem Keeps.pure (a : α) : Keeps (Pure.pure a : Effect α) := fun _ hw => hw

theorem Keeps.bind {x : Effect α} {f : α → Effect β} (hx : Keeps x) (hf : ∀ a, Keeps (f a)) :
    Keeps (x >>= f) :=
  keeps_iff.2 <| behind_bind (R := fun w w' => w.WellFormed → w'.WellFormed)
    (fun _ _ _ h h' hw => h' (h hw)) (keeps_iff.1 hx) fun a => keeps_iff.1 (hf a)

theorem Keeps.map {x : Effect α} (hx : Keeps x) (f : α → β) : Keeps (f <$> x) := by
  rw [map_eq_pure_bind]
  exact hx.bind fun a => .pure (f a)

theorem keeps_mutate {x : Mutation α} (hatomic : x.Atomic)
    (hx : ∀ t t' a, x t = .ok a t' → t.Changes t') : Keeps (mutate x) := by
  intro w hw
  cases hresult : x w.tree with
  | ok a t =>
    rw [mutate_eq_of_ok hresult]
    exact hw.changes (hx _ _ _ hresult)
  | error e t =>
    rw [mutate_eq_of_error hatomic hresult]
    exact hw

end Effect

theorem verify_keeps (id : ContextId) : Keeps (verify id) := by
  intro w hw
  obtain ⟨r, -, -, h⟩ | ⟨r, -, -, hfits, h⟩ | ⟨-, h⟩ := verify_cases hw id
  · rw [h]
    exact hw
  · rw [h]
    exact hw.record hfits
  · rw [h]
    exact hw

theorem repair_keeps (id : ContextId) : Keeps (repair id) := by
  intro w hw
  obtain ⟨r, -, -, -, h⟩ | ⟨r, -, -, h⟩ | ⟨-, -, h⟩ := repair_cases hw id
  · rw [h]
    exact hw
  · rw [h]
    exact (hw.amend r id).clear id
  · rw [h]
    exact hw

theorem repairEach_keeps (ids : List ContextId) : Keeps (repairEach ids) := by
  induction ids with
  | nil => exact .pure 0
  | cons id ids ih => exact (repair_keeps id).bind fun done => ih.bind fun n => .pure _

theorem repairAll_keeps : Keeps repairAll := fun w => repairEach_keeps w.log.keys w

/-- Every operation leaves a well-formed world behind. -/
theorem Operation.keeps (op : Operation) : Keeps op.run := by
  cases op.kind with
  | edit _ hrun hatomic hx =>
    rw [hrun]
    exact (keeps_mutate hatomic fun t t' a h => (hx t t' a h).changes).map _
  | verify id => exact (verify_keeps id).map _
  | repair id => exact (repair_keeps id).map _
  | repairAll => exact repairAll_keeps.map _

/-- One operation after another leaves a well-formed world behind. -/
theorem World.WellFormed.after {w : World} (h : w.WellFormed) (ops : List Operation) :
    (w.after ops).WellFormed := by
  induction ops generalizing w with
  | nil => exact h
  | cons op ops ih =>
    have hstep : (op.apply w).2.WellFormed := by
      have hkept := op.keeps w h
      rw [Operation.apply]
      cases hresult : op.run w with
      | ok a w' =>
        rw [hresult] at hkept
        exact hkept
      | error e w' =>
        rw [hresult] at hkept
        exact hkept
    exact ih hstep

theorem World.Reachable.after {w : World} (h : w.Reachable) (ops : List Operation) :
    (w.after ops).Reachable := by
  obtain ⟨ops', rfl⟩ := h
  exact ⟨ops' ++ ops, List.foldl_append.symm⟩

/-- Every reachable world is well formed. -/
theorem World.Reachable.wellFormed {w : World} (h : w.Reachable) : w.WellFormed := by
  obtain ⟨ops, rfl⟩ := h
  exact wellFormed_new.after ops

end Offside.Audit
