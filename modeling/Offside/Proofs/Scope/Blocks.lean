import Offside.Proofs.Scope.Listing
import Offside.Proofs.Text.ByteOrder

/-!
# `Offside.Proofs.Scope.Blocks`: listings and look-ups agree

A listing shows the names of one context after another, block by block, and a look-up asks one
context after another for a name. Both take the same walk, also where the chain goes round and the
listing comes to contexts again. So a name is listed exactly if a look-up finds it
(`mem_listing_iff`), and it is listed first in the block of its owner: `FirstListed` says what
stands before it there. In a block names are in the order of their bytes
(`pairwise_localNames`), whatever has been bound and removed.

`variableList_agrees` is the result for all trees that a program can build.
-/

set_option autoImplicit false

namespace Offside.Scope

namespace Tree

open Offside.Audit Offside.Text

variable {t : Tree} {id owner : ContextId} {name : String}

/-- Where a listing shows a name first: behind the names of `nearer` contexts, none of which is the
name, and behind the `smaller` names of its owner. -/
structure FirstListed (t : Tree) (id owner : ContextId) (name : String) (names : List String)
    (nearer further : List ContextId) (smaller larger : List String) : Prop where
  /-- The walk passes the owner behind the nearer contexts. -/
  walk : t.ancestors id = nearer ++ owner :: further
  /-- These are the contexts that parent links lead to, in turn, up to the owner. -/
  links : ∀ k c, (nearer ++ [owner])[k]? = some c → t.outward id k = some c
  /-- The owner binds the name, between smaller and larger ones. -/
  block : t.localNames owner = smaller ++ name :: larger
  /-- The bytes of the smaller names come before those of the name. -/
  below : ∀ x ∈ smaller, Precedes x name
  /-- The bytes of the larger names come behind those of the name. -/
  above : ∀ x ∈ larger, Precedes name x
  /-- The blocks are listed one behind the other. -/
  listed : names = nearer.flatMap t.localNames ++ (smaller ++ name :: larger) ++
    further.flatMap t.localNames
  /-- What stands before the name are the names of the nearer contexts and the smaller names of the
  owner, and the name is not among them. -/
  first : names.idxOf name = (nearer.flatMap t.localNames ++ smaller).length

/-! ### Blocks -/

/-- A context names what it binds in the order of the bytes. -/
theorem pairwise_localNames (ht : t.WellFormed) (id : ContextId) :
    (t.localNames id).Pairwise Precedes := by
  unfold localNames
  cases hc : t.context? id with
  | none => exact List.Pairwise.nil
  | some c =>
    show (c.bindings.entries.map Prod.fst).Pairwise Precedes
    rw [List.pairwise_map]
    exact (ht.ordered id c hc).imp fun hlt => precedes_of_lt hlt

/-- A name that a context binds stands in its block between the smaller and the larger ones. -/
theorem exists_block (ht : t.WellFormed) (h : t.binds id name = true) :
    ∃ smaller larger, t.localNames id = smaller ++ name :: larger ∧ name ∉ smaller ∧
      (∀ x ∈ smaller, Precedes x name) ∧ ∀ x ∈ larger, Precedes name x := by
  obtain ⟨smaller, larger, hblock, hfirst⟩ :=
    List.eq_append_cons_of_mem (mem_localNames_iff.2 h)
  have hpairwise := pairwise_localNames ht id
  rw [hblock, List.pairwise_append, List.pairwise_cons] at hpairwise
  obtain ⟨-, ⟨hlarger, -⟩, hsmaller⟩ := hpairwise
  exact ⟨smaller, larger, hblock, hfirst, fun x hx => hsmaller x hx name List.mem_cons_self,
    hlarger⟩

/-! ### One walk -/

/-- A look-up that skips no parents searches the ancestors. -/
theorem ownerOf_zero_iff (hid : t.Has id) : t.ownerOf id name 0 = .ok owner ↔
    (t.ancestors id).find? (fun c => t.binds c name) = some owner := by
  rw [ownerOf_eq_ok_iff]
  constructor
  · rintro ⟨start, hstart, hfind⟩
    cases (nthParent_eq_ok_iff.1 hstart).2
    exact hfind
  · intro hfind
    exact ⟨id, nthParent_eq_ok hid rfl, hfind⟩

/-- A value is read exactly if there is an owner. -/
theorem exists_getVariable_iff {n : Nat} :
    (∃ value, t.getVariable id name n = .ok value) ↔ ∃ owner, t.ownerOf id name n = .ok owner := by
  rcases resolves_or_fails t id name n with ⟨owner, found, h⟩ | ⟨e, h⟩
  · exact iff_of_true ⟨_, h.getVariable⟩ ⟨owner, h.ownerOf⟩
  · simp [h.getVariable, h.ownerOf]

/-- A name is listed exactly if a look-up finds it. -/
theorem mem_listing_iff (hid : t.Has id) :
    name ∈ (t.ancestors id).flatMap t.localNames ↔
      ∃ value, t.getVariable id name 0 = .ok value := by
  rw [exists_getVariable_iff]
  simp only [ownerOf_zero_iff hid, List.mem_flatMap, mem_localNames_iff]
  rw [← Option.isSome_iff_exists, List.find?_isSome]

/-- The owner of a name is where the name is listed first. -/
theorem exists_firstListed (ht : t.WellFormed) (hid : t.Has id)
    (howner : t.ownerOf id name 0 = .ok owner) :
    ∃ nearer further smaller larger,
      t.FirstListed id owner name ((t.ancestors id).flatMap t.localNames)
        nearer further smaller larger := by
  obtain ⟨hbinds, nearer, further, hwalk, hnearer⟩ :=
    List.find?_eq_some_iff_append.1 ((ownerOf_zero_iff hid).1 howner)
  obtain ⟨smaller, larger, hblock, hfirst, hsmaller, hlarger⟩ := exists_block ht hbinds
  have hnames : (t.ancestors id).flatMap t.localNames =
      nearer.flatMap t.localNames ++ (smaller ++ name :: larger) ++
        further.flatMap t.localNames := by
    simp only [hwalk, List.flatMap_append, List.flatMap_cons, hblock, List.append_assoc]
  -- The search has passed the nearer contexts, so none of them binds the name.
  have hbefore : name ∉ nearer.flatMap t.localNames ++ smaller := by
    rw [List.mem_append, List.mem_flatMap]
    rintro (⟨c, hc, hname⟩ | hname)
    · have hno := hnearer c hc
      rw [mem_localNames_iff.1 hname] at hno
      cases hno
    · exact hfirst hname
  refine ⟨nearer, further, smaller, larger, hwalk, fun k c hk => ?_, hblock, hsmaller, hlarger,
    hnames, ?_⟩
  · have hplace : (t.ancestors id)[k]? = some c := by
      rw [hwalk, List.append_cons]
      exact List.getElem?_append_left (List.getElem?_eq_some_iff.1 hk).1 ▸ hk
    rw [getElem?_ancestors hid] at hplace
    split at hplace
    · exact hplace
    · cases hplace
  · have hsplit : nearer.flatMap t.localNames ++ (smaller ++ name :: larger) ++
          further.flatMap t.localNames =
        (nearer.flatMap t.localNames ++ smaller) ++
          name :: (larger ++ further.flatMap t.localNames) := by simp
    rw [hnames, hsplit, List.idxOf_append_of_notMem hbefore, List.idxOf_cons_self, Nat.add_zero]

/-! ### The result -/

/-- Whatever tree a program has built and whether or not the chain goes round, the names that are
listed from a context are those that a look-up finds, and the block in which a name is listed first
is the one of its owner. In the block of every context the names are in the order of their bytes. -/
theorem variableList_agrees {w : World} (hw : w.Reachable) (hid : id ∈ w.tree.contextIds)
    (name : String) :
    ∃ names, w.tree.variableList id = .ok names ∧
      (name ∈ names ↔ ∃ value, w.tree.getVariable id name 0 = .ok value) ∧
      (∀ owner, w.tree.ownerOf id name 0 = .ok owner →
        ∃ nearer further smaller larger,
          w.tree.FirstListed id owner name names nearer further smaller larger) ∧
      ∀ c, (w.tree.localNames c).Pairwise Precedes := by
  have ht : w.tree.WellFormed := hw.wellFormed.tree
  have hhas : w.tree.Has id := mem_contextIds.1 hid
  exact ⟨_, variableList_eq_ok hhas, mem_listing_iff hhas,
    fun _ howner => exists_firstListed ht hhas howner, pairwise_localNames ht⟩

/-- Three lies below the cycle of one and two, and the listing from three comes to one twice. The
name that one binds is listed first behind the names of three and two, of which two binds none. -/
theorem variableList_agrees_below_cycle :
    ∃ names nearer further smaller larger,
      lasso.tree.variableList ⟨3⟩ = .ok names ∧ "far" ∈ names ∧
      lasso.tree.FirstListed ⟨3⟩ ⟨1⟩ "far" names nearer further smaller larger ∧
      names.idxOf "far" = 3 := by
  have hid : (⟨3⟩ : ContextId) ∈ lasso.tree.contextIds := by decide
  obtain ⟨names, hlisting, hmem, hfirst, -⟩ := variableList_agrees lasso_reachable hid "far"
  obtain ⟨nearer, further, smaller, larger, hlisted⟩ := hfirst ⟨1⟩ rfl
  cases hlisting
  exact ⟨_, nearer, further, smaller, larger, rfl, hmem.2 ⟨_, rfl⟩, hlisted, by decide⟩

end Tree

end Offside.Scope
