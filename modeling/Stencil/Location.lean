/-
# Locations

The template file and line an error points at.

Key definitions:
* `Location.of`: the location of a statement, the template being compiled
  standing in when no file is recorded.
* `Location.text`: a location in words.
-/
import Stencil.Template.Node

namespace Stencil

/-- A template file, and a line of it if it is known. -/
structure Location where
  file : String
  line : Option UInt32
  deriving Repr, DecidableEq

namespace Location

/-- Where a statement is; without a recorded file it is in the current one. -/
def of (pos : Position) (current : String) : Location := ⟨pos.file.getD current, pos.line⟩

/-- A location in words. -/
def text (l : Location) : String :=
  match l.line with
  | some line => l.file ++ " on line " ++ toString line.toNat
  | none => l.file

end Location
end Stencil
