import Offside.Decimal.Basic

/-!
# `Offside.Toml.Value`: what a TOML document holds

Tables come about in four ways, and which of them decides what may be added to one later. A
table written inline is closed. A table under a header of its own, or an element of an array
of tables, takes further sub-tables by header but no dotted keys from outside. A table that is
only implied by a longer header may still get its own header. A table made by a dotted key may
be extended by further dotted keys and by headers of sub-tables.

`graft` walks a path under these rules and changes what it finds at the end.
-/

set_option autoImplicit false

namespace Offside.Toml

/-- How a table came about. -/
inductive Origin where
  /-- Written in braces. -/
  | inline
  /-- Under a header of its own, or the document itself. -/
  | header
  /-- Only named on the way to another header. -/
  | implied
  /-- Made by a dotted key. -/
  | dotted
deriving DecidableEq, Repr

/-- A TOML value. -/
inductive Value where
  /-- A text. -/
  | string (s : String)
  /-- An integer. -/
  | integer (i : Int)
  /-- A floating-point number. -/
  | float (d : Decimal)
  /-- A truth value. -/
  | boolean (b : Bool)
  /-- A date, a time of day, or both. -/
  | datetime
  /-- A sequence; `tables` marks one that was made by headers in double brackets. -/
  | array (tables : Bool) (items : List Value)
  /-- Named values. -/
  | table (origin : Origin) (entries : List (String × Value))
deriving Repr, Inhabited

/-- The named values of a table. -/
abbrev Entries := List (String × Value)

namespace Entries

/-- The value of a name. -/
def value? (entries : Entries) (key : String) : Option Value :=
  (entries.find? (fun e => e.1 == key)).map Prod.snd

/-- Change the value of a name, or give it one. -/
def update (key : String) (f : Option Value → Option Value) : Entries → Option Entries
  | [] => (f none).map (fun v => [(key, v)])
  | (k, v) :: rest =>
    if k = key then (f (some v)).map (fun v => (k, v) :: rest)
    else (update key f rest).map ((k, v) :: ·)

/-- Give a name a value that has none yet. -/
def insertNew (key : String) (value : Value) (entries : Entries) : Option Entries :=
  entries.update key (fun
    | none => some value
    | some _ => none)

/-- Follow a path of names from a table and change the table at its end. Tables that are
missing on the way are made; an array of tables stands for its last element. If the path was
written as a dotted key, tables with a header of their own are closed to it. -/
def graft (isDotted : Bool) (f : Origin → Entries → Option (Origin × Entries)) :
    List String → Origin → Entries → Option (Origin × Entries)
  | [], origin, entries => f origin entries
  | key :: path, origin, entries =>
    let below (origin : Origin) (entries : Entries) : Option Value :=
      (graft isDotted f path origin entries).map (fun p => .table p.1 p.2)
    let changed := entries.update key (fun
      | none => below (if isDotted then .dotted else .implied) []
      | some (.table .header entries) => if isDotted then none else below .header entries
      | some (.table .implied entries) => below .implied entries
      | some (.table .dotted entries) => below .dotted entries
      -- The last element is the one that later headers and keys speak of.
      | some (.array true items) =>
        match items.getLast? with
        | some (.table origin entries) =>
          (below origin entries).map (fun t => .array true (items.dropLast ++ [t]))
        | _ => none
      | some _ => none)
    changed.map (fun entries => (origin, entries))

/-- Add a key with a value. The key is a path of names, all but the last of which must lead
through tables made by dotted keys. -/
def addPair (key : List String) (value : Value) (origin : Origin) (entries : Entries) :
    Option (Origin × Entries) :=
  match key.getLast? with
  | none => none
  | some last =>
    graft true
      (fun o es =>
        if key.length ≠ 1 ∧ o ≠ .dotted then none
        else (insertNew last value es).map (fun es => (o, es)))
      key.dropLast origin entries

/-- Open the table of a header. It must not have had one before. -/
def addTable (key : String) (origin : Origin) (entries : Entries) : Option (Origin × Entries) :=
  (entries.update key (fun
    | none => some (.table .header [])
    | some (.table .implied es) => some (.table .header es)
    | some _ => none)).map (fun es => (origin, es))

/-- Open one more element of an array of tables. -/
def addElement (key : String) (origin : Origin) (entries : Entries) : Option (Origin × Entries) :=
  (entries.update key (fun
    | none => some (.array true [.table .header []])
    | some (.array true items) => some (.array true (items ++ [.table .header []]))
    | some _ => none)).map (fun es => (origin, es))

end Entries

end Offside.Toml
