/-
# Templates written by the line

A small notation with one statement to a line: a line that starts with an
equals sign prints a variable, one that starts with an exclamation mark is a
statement nobody knows, one that starts with a question mark cannot be read,
and all others are text. Each statement is placed at its line of the source.

Key definitions:
* `Template.ofLines`: the template of a source.
-/
import Stencil.Error

namespace Stencil
namespace Template

/-- The lines of a text; the line being read is in reverse. -/
def lines (line : List Char) : List Char → List (List Char)
  | [] => [line.reverse]
  | c :: cs => if c = '\n' then line.reverse :: lines [] cs else lines (c :: line) cs

/-- The statement on a line, if the line can be read. -/
def ofLine? : List Char → Option Stmt
  | '=' :: name => some (.echo (some (.var (String.ofList name))))
  | '!' :: _ => some .unknown
  | '?' :: _ => none
  | line => some (.text (String.ofList line))

/-- The nodes of lines numbered from `k` on. -/
def numbered (source : String) : Nat → List (List Char) → Option Template
  | _, [] => some []
  | k, line :: rest => do
    let stmt ← ofLine? line
    let nodes ← numbered source (k + 1) rest
    return .mk stmt ⟨some source, some k.toUInt32⟩ :: nodes

/-- The template of a source with one statement to a line. -/
def ofLines (text source : String) : Except CompileError Template :=
  match numbered source 1 (lines [] text.toList) with
  | some t => .ok t
  | none => .error (.invalidTree source)

end Template
end Stencil
