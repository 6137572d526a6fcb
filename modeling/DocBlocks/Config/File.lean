import DocBlocks.Config.Basic
import DocBlocks.Number.Shortest
import DocBlocks.Toml.Document
import DocBlocks.Toml.Quoted

/-!
# Configuration files

Settings are stored in the table `llm` of a TOML document. Other tables and keys are passed over,
but a value of the wrong kind under a known key spoils the file.

## Main definitions

* `Config.read?`: the settings in a file.
* `Config.render`: the file for settings.
-/

namespace DocBlocks.Config

open Toml

/-! ## Reading -/

/-- A string. -/
def string? : Value → Option Text
  | .string t => some t
  | _ => none

/-- A number of tokens: a whole number of 32 bits. -/
def tokens? : Value → Option UInt32
  | .integer i => if 0 ≤ i ∧ i.toNat < UInt32.size then some (UInt32.ofNat i.toNat) else none
  | _ => none

/-- A temperature: any number, brought to 32 bits. -/
def temperature? : Value → Option Binary
  | .float x => some (x.convert Binary.single)
  | .integer i => some (Binary.ofInt Binary.single i)
  | _ => none

/-- Whether a value has no parts. -/
def isEmptyGroup : Value → Bool
  | .array items => items.isEmpty
  | .table _ entries => entries.isEmpty
  | .rows tables => tables.isEmpty
  | _ => false

/-- A provider: its name, or a table with its name as the only key and nothing under it. -/
def provider? : Value → Option Provider
  | .string t => Provider.ofName? t
  | .table _ [(key, v)] => if isEmptyGroup v then Provider.ofName? key else none
  | _ => none

/-- The value under a key, read by `read`. A key that is not there leaves the setting open. -/
def setting? {α : Type} (read : Value → Option α) (key : String) (t : Table) : Option (Option α) :=
  match t.lookup key.toList with
  | some v => (read v).map some
  | none => some none

/-- The settings in a table. -/
def ofTable? (t : Table) : Option Config := do
  return { provider := (← setting? provider? "provider" t).getD .hostedApi
           apiKey := ← setting? string? "api_key" t
           baseUrl := ← setting? string? "base_url" t
           model := ← setting? string? "model" t
           maxTokens := ← setting? tokens? "max_tokens" t
           temperature := ← setting? temperature? "temperature" t }

/-- The settings in a list that has all of them in their order. -/
def ofItems? : List Value → Option Config
  | provider :: key :: url :: model :: tokens :: temperature :: _ => do
    return { provider := ← provider? provider
             apiKey := ← string? key
             baseUrl := ← string? url
             model := ← string? model
             maxTokens := ← tokens? tokens
             temperature := ← temperature? temperature }
  | _ => none

/-- The settings in a document. -/
def ofDocument? (t : Table) : Option Config :=
  match t.lookup "llm".toList with
  | none => some {}
  | some (.table _ entries) => ofTable? entries
  | some (.array items) => ofItems? items
  | some _ => none

/-- The settings in a file. -/
def read? (t : Text) : Option Config := (document? t).bind ofDocument?

/-! ## Writing -/

/-- A line with a setting, if it is not open. -/
def line {α : Type} (key : String) (write : α → Text) : Option α → Text
  | some a => key.toList ++ " = ".toList ++ write a ++ ['\n']
  | none => []

/-- The file for settings. -/
def render (c : Config) : Text :=
  "[llm]\n".toList ++
    line "provider" (quoted ∘ Provider.name) (some c.provider) ++
    line "api_key" quoted c.apiKey ++
    line "base_url" quoted c.baseUrl ++
    line "model" quoted c.model ++
    line "max_tokens" (fun n : UInt32 => Nat.toDigits 10 n.toNat) c.maxTokens ++
    line "temperature" Binary.text c.temperature

end DocBlocks.Config
