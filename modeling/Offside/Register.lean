/-!
# `Offside.Register`: entries kept in the order of their keys

A `Register` maps keys to entries and lists them by increasing key, which is the order every
listing of the program shows. Strings compare by code points. `find?_insert` and `find?_erase`
say what a look-up finds after a change; they need no assumption on the order.
-/

set_option autoImplicit false

namespace Offside

/-- Entries in the order of their keys. -/
structure Register (κ α : Type) where
  /-- The keys with their entries. -/
  entries : List (κ × α) := []
deriving DecidableEq, Repr

namespace Register

variable {κ α : Type} [DecidableEq κ]

/-- The keys, in order. -/
def keys (r : Register κ α) : List κ := r.entries.map Prod.fst

/-- The entry in a list of entries under a key. -/
def lookup (k : κ) : List (κ × α) → Option α
  | [] => none
  | (j, a) :: rest => if j = k then some a else lookup k rest

/-- The entry under a key. -/
def find? (r : Register κ α) (k : κ) : Option α := lookup k r.entries

/-- Whether there is an entry under a key. -/
def contains (r : Register κ α) (k : κ) : Bool := (r.find? k).isSome

/-- The register without the entry under a key. -/
def erase (r : Register κ α) (k : κ) : Register κ α :=
  ⟨r.entries.filter (fun e => e.1 ≠ k)⟩

variable [LT κ] [DecidableRel (α := κ) (· < ·)]

/-- A list of entries with one more in its place, or with the entry under that key
replaced. -/
def place (k : κ) (a : α) : List (κ × α) → List (κ × α)
  | [] => [(k, a)]
  | (j, b) :: rest =>
    if j = k then (k, a) :: rest
    else if k < j then (k, a) :: (j, b) :: rest
    else (j, b) :: place k a rest

/-- The register with the given entry under the given key. -/
def insert (r : Register κ α) (k : κ) (a : α) : Register κ α := ⟨place k a r.entries⟩

/-! ### Looking up after a change -/

/-- Placing an entry changes what is found under its own key only. -/
theorem lookup_place (k j : κ) (a : α) (entries : List (κ × α)) :
    lookup j (place k a entries) = if j = k then some a else lookup j entries := by
  induction entries with
  | nil => simp only [place, lookup, eq_comm]
  | cons e rest ih => grind [place, lookup]

/-- Inserting changes what is found under the inserted key only. -/
theorem find?_insert (r : Register κ α) (k j : κ) (a : α) :
    (r.insert k a).find? j = if j = k then some a else r.find? j :=
  lookup_place k j a r.entries

omit [LT κ] [DecidableRel (α := κ) (· < ·)] in
/-- Erasing changes what is found under the erased key only. -/
theorem find?_erase (r : Register κ α) (k j : κ) :
    (r.erase k).find? j = if j = k then none else r.find? j := by
  obtain ⟨entries⟩ := r
  simp only [erase, find?]
  induction entries with
  | nil => simp [lookup]
  | cons e rest ih => grind [lookup]

end Register

end Offside
