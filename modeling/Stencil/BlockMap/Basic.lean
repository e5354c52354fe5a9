/-
# Block maps

A layout compiled for others to extend is an ordered map: named blocks, and
between them segments of code keyed by the order they were added in. A name
that is defined again keeps its slot and takes the new body.

Positions are words of 64 bits. A map that has been stored may hold any of them,
so the count starts again after the last one. A layout counts its own segments
from zero and never gets there: no map holds that many entries.

Key definitions:
* `BlockKey`, `BlockBody`, `BlockMap`.
* `BlockMap.define`, `BlockMap.append`: add a named block, add a segment.
* `BlockMap.push`, `BlockMap.file`: add to a map that may have been stored.
* `BlockMap.named?`: the body under a name.
-/
import Stencil.Template.Node

namespace Stencil

/-- What an entry is filed under. -/
inductive BlockKey where
  | name (name : String)
  | position (index : Nat)
  deriving Repr, DecidableEq

/-- The position after another one; the first one comes after the last. -/
def BlockKey.following (index : Nat) : Nat := (index + 1) % 0x10000000000000000

/-- A body is a list of nodes, or code already generated. -/
inductive BlockBody where
  | nodes (nodes : List Node)
  | code (code : String)

/-- Equality of bodies. -/
def BlockBody.same : BlockBody → BlockBody → Bool
  | .nodes ns, .nodes ms => Node.sameList ns ms
  | .code c, .code d => c == d
  | _, _ => false

/-- Entries in order, and the key of the next segment. -/
structure BlockMap where
  entries : List (BlockKey × BlockBody)
  next : Nat

namespace BlockMap

/-- No entries. -/
def empty : BlockMap := ⟨[], 0⟩

/-- Entries with `body` under `key`: in the slot of the key, or at the end. -/
def put (key : BlockKey) (body : BlockBody) :
    List (BlockKey × BlockBody) → List (BlockKey × BlockBody)
  | [] => [(key, body)]
  | (k, b) :: rest => if k = key then (k, body) :: rest else (k, b) :: put key body rest

/-- Define a named block. -/
def define (m : BlockMap) (name : String) (body : BlockBody) : BlockMap :=
  { m with entries := put (.name name) body m.entries }

/-- Append a segment of code to a map that counts its own segments. -/
def append (m : BlockMap) (code : String) : BlockMap :=
  ⟨put (.position m.next) (.code code) m.entries, m.next + 1⟩

/-- Append a segment of code to any map. -/
def push (m : BlockMap) (code : String) : BlockMap :=
  { m.append code with next := BlockKey.following m.next }

/-- File an entry under its own key, as when a stored map is read. -/
def file (m : BlockMap) (key : BlockKey) (body : BlockBody) : BlockMap :=
  match key with
  | .name _ => { m with entries := put key body m.entries }
  | .position p => ⟨put key body m.entries, max m.next (BlockKey.following p)⟩

/-- The body filed under a key. -/
def get? (m : BlockMap) (key : BlockKey) : Option BlockBody := m.entries.lookup key

/-- The body of a named block. -/
def named? (m : BlockMap) (name : String) : Option BlockBody := m.get? (.name name)

/-- The keys in order. -/
def keys (m : BlockMap) : List BlockKey := m.entries.map (·.1)

/-- The names of the named blocks in order. -/
def names (m : BlockMap) : List String :=
  m.keys.filterMap fun
    | .name n => some n
    | .position _ => none

/-- The number of entries. -/
def size (m : BlockMap) : Nat := m.entries.length

/-- There are no entries. -/
def isEmpty (m : BlockMap) : Bool := m.entries.isEmpty

/-- Equality of entry lists: same keys and bodies in the same order. -/
def sameEntries : List (BlockKey × BlockBody) → List (BlockKey × BlockBody) → Bool
  | [], [] => true
  | (k, a) :: as, (l, b) :: bs => k == l && a.same b && sameEntries as bs
  | _, _ => false

/-- Equality of maps. The order matters, the key of the next segment does not. -/
def same (m n : BlockMap) : Bool := sameEntries m.entries n.entries

end BlockMap
end Stencil
