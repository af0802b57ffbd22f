import Offside.Settings
import Offside.Toml.Document

/-!
# `Offside.Configuration`: settings from a configuration document

A configuration is a TOML document with two sections, `lexer` for the settings of a scan and
`log` for the level of logging. Whatever is missing has its standard value and whatever is
unknown is ignored, but a known key with a value of the wrong type makes the document
unusable. A section may also be an array of its values in the order of its keys, or a date,
which has none of them. A kind of token is given by its name, or by a table whose only key is
that name and holds nothing.
-/

set_option autoImplicit false

namespace Offside

/-- What a configuration document decides. -/
structure Configuration where
  /-- The choices of a scan. -/
  settings : Settings := {}
  /-- The level of logging. -/
  logLevel : String := "info"
deriving DecidableEq, Repr

namespace Configuration

open Toml (Entries)

/-- The values of a section by key, where `keys` are all keys it can have. What lies behind
the last key of an array is ignored. -/
def fields (keys : List String) : Toml.Value → Option (String → Option Toml.Value)
  | .table _ entries => some (Entries.value? entries)
  | .array _ items => some (Entries.value? (keys.zip items))
  | .datetime => some (fun _ => none)
  | _ => none

/-- A number that counts something. -/
def count? : Toml.Value → Option Nat
  | .integer i => if 0 ≤ i then some i.toNat else none
  | _ => none

/-- A truth value. -/
def flag? : Toml.Value → Option Bool
  | .boolean b => some b
  | _ => none

/-- A text. -/
def text? : Toml.Value → Option String
  | .string s => some s
  | _ => none

/-- A kind of token by its name. -/
def kind? : Toml.Value → Option Kind
  | .string s => Kind.ofName? s
  | .table _ [(name, .table _ [])] => Kind.ofName? name
  | .table _ [(name, .array _ [])] => Kind.ofName? name
  | _ => none

/-- A set of things, as an array of them in any order. -/
def set? {α : Type} [BEq α] (item? : Toml.Value → Option α) : Toml.Value → Option (List α)
  | .array _ items => (items.mapM item?).map List.eraseDups
  | _ => none

/-- The value of a key, which must have the right type if the key is there. -/
def field? {α : Type} (values : String → Option Toml.Value) (key : String)
    (decode? : Toml.Value → Option α) (standard : α) : Option α :=
  match values key with
  | some v => decode? v
  | none => some standard

/-- The settings in a `lexer` section. -/
def settings? (part : Toml.Value) : Option Settings := do
  let values ← fields
    ["indent_width", "emit_comments", "extra_keywords", "extra_continuations"] part
  return {
    indentWidth := ← field? values "indent_width" (fun v => (count? v).map some) none
    emitComments := ← field? values "emit_comments" flag? false
    extraKeywords := ← field? values "extra_keywords" (set? text?) []
    extraContinuations := ← field? values "extra_continuations" (set? kind?) [] }

/-- The level in a `log` section. -/
def level? (part : Toml.Value) : Option String := do
  let values ← fields ["level"] part
  field? values "level" text? "info"

/-- The configuration of a document, if it is one. -/
def parse (document : String) : Option Configuration := do
  let entries ← Toml.document document
  return {
    settings := ← field? (Entries.value? entries) "lexer" settings? {}
    logLevel := ← field? (Entries.value? entries) "log" level? "info" }

end Configuration

end Offside
