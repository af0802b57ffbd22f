import Offside.Proofs.Audit.Harmless

/-!
# `Offside.Proofs.Audit.Convergence`: repairing until nothing is left to do

What the log says about a context may have been found long ago. A repair goes by it all the same
and does exactly what it asks for (`Applies`), which need not be what the context needs by now. But
the repair also clears the entry, whether or not it succeeds (`unlogged_repair`), so that the next
one has to inspect the context anew. What an inspection finds is enough to make the context sound
(`exists_repair_eq_ok_of_not_logged`), and then there is nothing left to do: further repairs leave
the world alone (`World.Clean.repair_eq_ok`). So two repairs are always enough, which is
`repair_converges`.
-/

set_option autoImplicit false

namespace Offside.Audit

open Offside.Scope Effect

variable {w : World} {id : ContextId} {r : Report}

/-! ### Worlds with nothing left to do -/

/-- There is nothing to repair about a context. -/
structure World.Clean (w : World) (id : ContextId) : Prop where
  /-- An inspection finds nothing wrong. -/
  valid : Valid w.tree id
  /-- The log says nothing. -/
  unlogged : w.log.find? id = none

/-- Where there is nothing to repair, a repair says so and leaves the world alone. -/
theorem World.Clean.repair_eq_ok (h : w.Clean id) : repair id w = .ok false w := by
  obtain ⟨r, hr, hvalid⟩ := h.valid
  exact repair_of_sound h.unlogged hr hvalid

/-- So does any number of repairs. -/
theorem World.Clean.repairs_eq_ok (h : w.Clean id) (n : ℕ) :
    (List.replicate n id).mapM repair w = .ok (List.replicate n false) w := by
  induction n with
  | zero => rfl
  | succ n ih =>
    rw [List.replicate_succ, List.mapM_cons, bind_eq_of_ok h.repair_eq_ok, bind_eq_of_ok ih]
    rfl

/-! ### The first repair -/

/-- One world is another one where exactly what a report about a context asks for has been done
and the entry about the context is cleared. -/
structure Applies (r : Report) (id : ContextId) (w w' : World) : Prop where
  /-- What the report asks to hang hangs below the global context. -/
  hung : ∀ c, r.Hangs id c → w'.tree.parentOf c = some .global
  /-- All other links are as they were. -/
  linked : ∀ c, ¬ r.Hangs id c → w'.tree.parentOf c = w.tree.parentOf c
  /-- The context binds what it did, but for the names that the report asks to remove. -/
  unbound : w'.tree.bindingsOf id = (w.tree.bindingsOf id).filter (fun e => e.1 ∉ r.badNames)
  /-- Other contexts bind what they did. -/
  others : ∀ c, c ≠ id → w'.tree.bindingsOf c = w.tree.bindingsOf c
  /-- There are the same contexts. -/
  contexts : w'.tree.contextIds = w.tree.contextIds
  /-- They run the same scripts and belong to the same groups. -/
  homes : ∀ c, w'.tree.scriptOf c = w.tree.scriptOf c ∧ w'.tree.groupOf c = w.tree.groupOf c
  /-- There are the same scripts. -/
  scripts : w'.tree.scripts = w.tree.scripts
  /-- There are the same groups. -/
  groups : w'.tree.groups = w.tree.groups
  /-- The log says nothing about the context. -/
  cleared : w'.log.find? id = none
  /-- It says about other contexts what it did. -/
  logged : ∀ c, c ≠ id → w'.log.find? c = w.log.find? c

theorem applies_amend (hr : r.Fits w.tree id) :
    Applies r id w { tree := r.amend id w.tree, log := w.log.erase id } where
  hung _ hc := parentOf_amend_of_hangs (hr.has_of_hangs hc) hc
  linked _ hc := parentOf_amend_of_not_hangs hc
  unbound := bindingsOf_amend_self
  others _ hc := bindingsOf_amend_of_ne hc
  contexts := contextIds_amend
  homes c := homes_amend r id w.tree c
  scripts := rfl
  groups := rfl
  cleared := by rw [Register.find?_erase, if_pos rfl]
  logged c hc := by rw [Register.find?_erase, if_neg hc]

/-- In a well-formed world a repair of a context never fails, and does exactly what the log says
about it, if it says something. -/
theorem exists_repair_eq_ok (hw : w.WellFormed) (hid : w.tree.Has id) :
    ∃ done w', repair id w = .ok done w' ∧
      ∀ r, w.log.find? id = some r → done = true ∧ Applies r id w w' := by
  obtain ⟨r, hlog, -, -, h⟩ | ⟨r, hr, hfits, h⟩ | ⟨-, hno, -⟩ := repair_cases hw id
  · refine ⟨false, w, h, fun s hs => ?_⟩
    rw [hlog] at hs
    cases hs
  · refine ⟨true, _, h, fun s hs => ⟨rfl, ?_⟩⟩
    rcases hr with hlog | ⟨hlog, -⟩
    · cases hlog.symm.trans hs
      exact applies_amend hfits
    · rw [hlog] at hs
      cases hs
  · exact absurd hid hno

/-! ### The second repair -/

/-- Where the log says nothing about a context, one repair is enough. -/
theorem exists_repair_eq_ok_of_not_logged (ht : w.tree.WellFormed) (hid : w.tree.Has id)
    (hlog : w.log.find? id = none) : ∃ done w', repair id w = .ok done w' ∧ w'.Clean id := by
  obtain ⟨r, hr, hfinds⟩ := inspect_eq_ok ht hid
  cases hvalid : r.isValid with
  | true => exact ⟨false, w, repair_of_sound hlog hr hvalid, ⟨r, hr, hvalid⟩, hlog⟩
  | false =>
    exact ⟨true, _, repair_of_unsound ht hlog hr hvalid (hfinds.fits ht hid),
      (hfinds.restores ht hid).valid, hlog⟩

/-- A mutation of the tree leaves the log alone, whether it succeeds or not. -/
theorem log_behind_mutate {α : Type} (x : Mutation α) (w : World) :
    ((mutate x).behind w).log = w.log := by
  rw [behind, mutate]
  cases x w.tree with
  | ok a t => rfl
  | error e t => rfl

/-- So does a mend, however far it gets. -/
theorem log_behind_mend (id : ContextId) (r : Report) (w : World) :
    ((mend id r).behind w).log = w.log :=
  mend_behind (R := fun w w' => w'.log = w.log) (fun _ _ _ h h' => h'.trans h)
    (fun _ => log_behind_mutate _) (log_behind_mutate _) w

/-- The second half of a repair clears the entry before it mends. -/
theorem unlogged_mendLogged (id : ContextId) (w : World) :
    ((mendLogged id).behind w).log.find? id = none := by
  have hlogged : logged? id w = .ok (w.log.find? id) w := rfl
  have hclear : clear id w = .ok () { w with log := w.log.erase id } := rfl
  rw [behind]
  unfold mendLogged
  rw [bind_eq_of_ok hlogged]
  cases hlog : w.log.find? id with
  | none => exact hlog
  | some r =>
    dsimp only
    rw [bind_eq_of_ok hclear]
    have hmend : ((do mend id r; return true : Effect Bool).behind
        { w with log := w.log.erase id }).log = w.log.erase id :=
      behind_bind (R := fun w w' => w'.log = w.log) (fun _ _ _ h h' => h'.trans h)
        (log_behind_mend id r) (fun _ _ => rfl) _
    exact (congrArg (·.find? id) hmend).trans (by rw [Register.find?_erase, if_pos rfl])

/-- Behind a repair of a context the log says nothing about it, even if what it said could not be
mended. -/
theorem unlogged_repair (ht : w.tree.WellFormed) (hid : w.tree.Has id) :
    ((repair id).behind w).log.find? id = none := by
  cases hlog : w.log.find? id with
  | some r =>
    have hlogged : logged? id w = .ok (some r) w := by rw [logged?, hlog]
    have hrepair : repair id w = mendLogged id w := bind_eq_of_ok hlogged
    rw [behind, hrepair]
    exact unlogged_mendLogged id w
  | none =>
    obtain ⟨done, w', h, hclean⟩ := exists_repair_eq_ok_of_not_logged ht hid hlog
    rw [behind, h]
    exact hclean.unlogged

/-! ### Two repairs -/

/-- Whatever tree a program has built and whatever a log says about it, after two repairs of a
context there is nothing left to repair about it, and all further ones say so and leave the world
alone. What the program's own audits have logged about the context, the first repair does, and it
does nothing else. -/
theorem repair_converges (hw : w.Reachable) (hid : id ∈ w.tree.contextIds) :
    (∀ log, ∃ second w', repair id ((repair id).behind { w with log }) = .ok second w' ∧
        w'.Clean id ∧
        ∀ n, (List.replicate n id).mapM repair w' = .ok (List.replicate n false) w') ∧
      ∃ first w', repair id w = .ok first w' ∧
        ∀ r, w.log.find? id = some r → first = true ∧ Applies r id w w' := by
  have hwell := hw.wellFormed
  have hhas : w.tree.Has id := Tree.mem_contextIds.1 hid
  refine ⟨fun log => ?_, exists_repair_eq_ok hwell hhas⟩
  have hpruned := repair_prunes id { w with log } hwell.tree
  have hunlogged := unlogged_repair (w := { w with log }) hwell.tree hhas
  obtain ⟨second, w', h, hclean⟩ :=
    exists_repair_eq_ok_of_not_logged hpruned.wellFormed (hpruned.has id hhas) hunlogged
  exact ⟨second, w', h, hclean, hclean.repairs_eq_ok⟩

/-- What the log says about one is that it binds a name to null, which is mended by now, but its
chain ends elsewhere since. -/
def misled : World :=
  World.after {}
    [.createContext .global, .addVariable ⟨1⟩ "x" .everyone .null, .verify ⟨1⟩,
      .setVariable ⟨1⟩ "x" (.integer 1) 0, .createDetached, .reparent ⟨1⟩ (some ⟨2⟩)]

theorem repair_converges_misled :
    let r : Report := ⟨false, false, ["x"], some .global⟩
    misled.log.find? ⟨1⟩ = some r ∧
      (∃ w', repair ⟨1⟩ misled = .ok true w' ∧ Applies r ⟨1⟩ misled w') ∧
      ∃ second w', repair ⟨1⟩ ((repair ⟨1⟩).behind misled) = .ok second w' ∧ w'.Clean ⟨1⟩ := by
  intro r
  have hreachable : misled.Reachable := ⟨_, rfl⟩
  have hid : (⟨1⟩ : ContextId) ∈ misled.tree.contextIds := by decide
  obtain ⟨hclean, first, w', hfirst, hlogged⟩ := repair_converges hreachable hid
  obtain ⟨rfl, happlies⟩ := hlogged r rfl
  obtain ⟨second, w'', hsecond, hdone, -⟩ := hclean misled.log
  exact ⟨rfl, ⟨w', hfirst, happlies⟩, second, w'', hsecond, hdone⟩

-- The first repair removes the name and only the second one mends the chain.
example :
    ([[.repair ⟨1⟩], [.repair ⟨1⟩, .repair ⟨1⟩]].map fun ops =>
        (misled.after ops).tree.contexts.map fun c => (c.parent, c.bindings.keys)) =
      [[(none, []), (some ⟨2⟩, []), (none, [])],
        [(none, []), (some ⟨2⟩, []), (some .global, [])]] := rfl

end Offside.Audit
