/-
# Stored block maps

A block map is stored as a JSON array of its entries in order. An entry names
its key and holds its body; of several keys or bodies in one entry the first
counts.

Key definitions:
* `BlockMap.json`, `BlockMap.text`: a map as JSON.
* `BlockMap.ofJson?`, `BlockMap.parse?`: a map from JSON.
-/
import Stencil.BlockMap.Basic
import Stencil.Template.Decode
import Stencil.Template.Encode

namespace Stencil

/-- The member that records a key. -/
def BlockKey.member : BlockKey → String × Json
  | .name n => ("name", .str n)
  | .position p => ("position", .int p)

/-- The key recorded in a member. -/
def BlockKey.ofMember? : String × Json → Option BlockKey
  | ("name", j) => j.string?.map .name
  | (_, j) => j.nat64?.map .position

/-- The member that records a body. -/
def BlockBody.member : BlockBody → String × Json
  | .nodes ns => ("nodes", Template.json ns)
  | .code c => ("code", .str c)

/-- The body recorded in a member. -/
def BlockBody.ofMember? : String × Json → Option BlockBody
  | ("nodes", j) => (Template.ofJson? j).map .nodes
  | (_, j) => j.string?.map .code

namespace BlockMap

/-- A map as a JSON value. -/
def json (m : BlockMap) : Json := .arr (m.entries.map fun (k, b) => .obj [k.member, b.member])

/-- A map as JSON text. -/
def text (m : BlockMap) : String := m.json.render

/-- The entry a JSON value stands for. -/
def entryOf? : Json → Option (BlockKey × BlockBody)
  | .obj members => do
    let key ← members.find? fun (n, _) => n == "name" || n == "position"
    let body ← members.find? fun (n, _) => n == "nodes" || n == "code"
    some (← BlockKey.ofMember? key, ← BlockBody.ofMember? body)
  | _ => none

/-- Entries filed one after another into an empty map. -/
def ofEntries (entries : List (BlockKey × BlockBody)) : BlockMap :=
  entries.foldl (fun m (k, b) => m.file k b) empty

/-- The map a JSON value stands for. -/
def ofJson? (j : Json) : Option BlockMap := (Json.list? entryOf? j).map ofEntries

/-- The map of a JSON text. -/
def parse? (text : String) : Option BlockMap := (Json.parse? text).bind ofJson?

end BlockMap
end Stencil
