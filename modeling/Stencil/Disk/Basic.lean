/-
# The disk

The files a compilation sees: a tree of directories, each file with its content
and the time it was last changed. Paths are looked up step by step, and every
step but the last has to be a directory. A path starts at the working directory
or at the top of the tree.

The time is part of the disk. It is not known how it passes: the clock of a disk
says when each of the files to come is written, and may say anything.

Key definitions:
* `Disk`: the files and directories, and the clock.
* `Disk.home`: the place of the working directory.
* `Disk.locate`: where a path leads.
* `Disk.read`, `Disk.write?`, `Disk.changed?`, `Disk.canonical?`.
* `Disk.save?`: write a file at the time that the clock shows.
-/
import Stencil.Disk.Path

namespace Stencil

/-- The content of a file; bytes that are no text are kept as they are. -/
inductive Content where
  | text (text : String)
  | binary (bytes : List UInt8)
  deriving DecidableEq

/-- Text if the bytes are text. -/
def Content.ofBytes (bytes : List UInt8) : Content :=
  match String.fromUTF8? ⟨bytes.toArray⟩ with
  | some s => .text s
  | none => .binary bytes

/-- What stands at a place. -/
inductive Item where
  | file (content : Content) (changed : Nat)
  | dir
  deriving DecidableEq

/-- A place: the names that lead to it from the top. -/
abbrev Place := List String

/-- Why a path leads nowhere. -/
inductive Lost where
  | missing
  /-- A step of the path is a file. -/
  | notDirectory
  /-- The text cannot be a path. -/
  | malformed
  deriving Repr, DecidableEq

/-- Why a file cannot be read. -/
inductive Unreadable where
  | lost (why : Lost)
  | isDirectory
  | notText
  deriving Repr, DecidableEq

/-- The items that come and go, by place, and the times that are not theirs. -/
structure Disk where
  items : List (Place × Item)
  /-- When a directory last got or lost an item. -/
  listed : Place → Nat
  /-- When the files to come are saved, one after another. -/
  clock : Nat → Nat

namespace Disk

/-- The place of the working directory. -/
def home : Place := ["w"]

/-- The longest name a directory can hold, in bytes. -/
def maxName : Nat := 255

/-- The longest path that can be looked up, in bytes. -/
def maxPath : Nat := 4095

/-- An empty working directory, where the clock stands still. -/
def empty : Disk := ⟨[], fun _ => 2000000000, fun _ => 2000000000⟩

/-- The time that the clock shows. -/
def now (d : Disk) : Nat := d.clock 0

/-- The disk when the clock has gone on. -/
def tick (d : Disk) : Disk := { d with clock := fun n => d.clock (n + 1) }

/-- The item at a place. The working directory and those above it are always there. -/
def get? (d : Disk) (place : Place) : Option Item :=
  if place.isPrefixOf home then some .dir else d.items.lookup place

/-- Items with `item` at `place`: in the slot of the place, or at the end. -/
def putItem (place : Place) (item : Item) : List (Place × Item) → List (Place × Item)
  | [] => [(place, item)]
  | (p, i) :: rest => if p = place then (p, item) :: rest else (p, i) :: putItem place item rest

/-- When directories got or lost an item, if that has just happened at `place`. -/
def relisted (d : Disk) (place : Place) : Place → Nat :=
  fun p => if p = place ∨ p = place.dropLast then d.now else d.listed p

/-- The disk with `item` at `place`. -/
def put (d : Disk) (place : Place) (item : Item) : Disk :=
  { d with
    items := putItem place item d.items
    listed := if (d.get? place).isSome then d.listed else d.relisted place }

/-- Where one step of a path leads. Above the top is the top. -/
def step (place : Place) (name : String) : Except Lost Place :=
  if name = "" ∨ name = "." then .ok place
  else if name = ".." then .ok place.dropLast
  else if maxName < name.utf8ByteSize then .error .malformed
  else .ok (place ++ [name])

/-- Follow the steps of a path from a place. The place reached need not exist. -/
def walk (d : Disk) (place : Place) : List String → Except Lost Place
  | [] => .ok place
  | name :: rest =>
    match d.get? place with
    | none => .error .missing
    | some (.file ..) => .error .notDirectory
    | some .dir =>
      match step place name with
      | .error why => .error why
      | .ok next => d.walk next rest

/-- Where the steps of a path start. -/
def start (path : String) : Place := if Path.isAbsolute path then [] else home

/-- Where a path leads, whether or not something is there. -/
def locate (d : Disk) (path : String) : Except Lost Place :=
  if path.toList.contains '\x00' || maxPath < path.utf8ByteSize then .error .malformed
  else if path.isEmpty then .error .missing
  else d.walk (start path) (Path.steps path)

/-- The item a path leads to. -/
def find? (d : Disk) (path : String) : Option Item :=
  match d.locate path with
  | .ok place => d.get? place
  | .error _ => none

/-- Something is at the end of the path. -/
def exists? (d : Disk) (path : String) : Bool := (d.find? path).isSome

/-- When what a path leads to was last changed. -/
def changed? (d : Disk) (path : String) : Option Nat :=
  match d.locate path with
  | .error _ => none
  | .ok place =>
    match d.get? place with
    | some (.file _ changed) => some changed
    | some .dir => some (d.listed place)
    | none => none

/-- The text of a file. -/
def read (d : Disk) (path : String) : Except Unreadable String :=
  match d.locate path with
  | .error why => .error (.lost why)
  | .ok place =>
    match d.get? place with
    | none => .error (.lost .missing)
    | some .dir => .error .isDirectory
    | some (.file (.binary _) _) => .error .notText
    | some (.file (.text s) _) => .ok s

/-- The path of a place from the top. -/
def spelled (place : Place) : String := "/" ++ "/".intercalate place

/-- The one spelling of the path of something that exists. -/
def canonical? (d : Disk) (path : String) : Option String :=
  match d.locate path with
  | .error _ => none
  | .ok place => (d.get? place).map fun _ => spelled place

/-- The disk after a file is written, if it can be. Directories are not made. -/
def write? (d : Disk) (path : String) (content : Content) (time : Nat) : Option Disk :=
  match d.locate path with
  | .error _ => none
  | .ok place =>
    match d.get? place with
    | some .dir => none
    | _ => some (d.put place (.file content time))

/-- The disk after a file is written at the time that the clock shows. -/
def save? (d : Disk) (path : String) (content : Content) : Option Disk :=
  (d.write? path content d.now).map tick

/-- Follow the steps of a path from a place and make the directories that are
missing on the way, unless a file is in the way. -/
def makeDirs? (d : Disk) (place : Place) : List String → Option Disk
  | [] => some d
  | name :: rest =>
    match step place name with
    | .error _ => none
    | .ok next =>
      match d.get? next with
      | some (.file ..) => none
      | some .dir => d.makeDirs? next rest
      | none => (d.put next .dir).makeDirs? next rest

/-- Make a directory and those above it. -/
def mkdir? (d : Disk) (path : String) : Option Disk := d.makeDirs? (start path) (Path.steps path)

/-- Write a file, making the directories it is in. -/
def create? (d : Disk) (path : String) (content : Content) (time : Nat) : Option Disk := do
  let d ← d.makeDirs? (start path) (Path.steps path).dropLast
  d.write? path content time

/-- Set when a file was last changed. -/
def touch? (d : Disk) (path : String) (time : Nat) : Option Disk :=
  match d.locate path with
  | .error _ => none
  | .ok place =>
    match d.get? place with
    | some (.file content _) => some (d.put place (.file content time))
    | some .dir => some d
    | none => none

/-- Remove a file. -/
def remove? (d : Disk) (path : String) : Option Disk :=
  match d.locate path with
  | .error _ => none
  | .ok place =>
    match d.get? place with
    | some (.file ..) =>
      some { d with items := d.items.filter (·.1 != place), listed := d.relisted place }
    | _ => none

/-- The files below the working directory and their contents, by ascending path. -/
def files (d : Disk) : List (String × Content) :=
  let below := d.items.filter fun (place, _) => home.isPrefixOf place
  let all := below.filterMap fun
    | (place, .file content _) => some ("/".intercalate (place.drop home.length), content)
    | (_, .dir) => none
  all.mergeSort fun a b => decide (a.1 ≤ b.1)

end Disk
end Stencil
