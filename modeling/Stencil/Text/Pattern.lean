/-
# Patterns with placeholders

A pattern is a text with names in braces. A name that stands for something is
replaced, braces included; what it stands for is not looked at again. All other
braces are plain text.

Key definitions:
* `Pattern.fill`: a pattern with its placeholders replaced.
-/

namespace Stencil
namespace Pattern

/-- What has been filled in so far, and the text since the last open brace, if
there is one. Both are in reverse. -/
structure Progress where
  done : List Char
  held : Option (List Char)

/-- What is held after an open brace, as plain text in reverse. -/
def Progress.flush (p : Progress) : List Char :=
  match p.held with
  | none => p.done
  | some held => held ++ '\x7b' :: p.done

/-- One character of a pattern. -/
def step (meaning : String → Option String) (p : Progress) (c : Char) : Progress :=
  match p.held with
  | none => if c = '\x7b' then ⟨p.done, some []⟩ else ⟨c :: p.done, none⟩
  | some held =>
    if c = '\x7b' then ⟨p.flush, some []⟩
    else if c = '\x7d' then
      match meaning (String.ofList held.reverse) with
      | some value => ⟨value.toList.reverse ++ p.done, none⟩
      | none => ⟨c :: p.flush, none⟩
    else ⟨p.done, some (c :: held)⟩

/-- A pattern with its placeholders replaced. -/
def fill (meaning : String → Option String) (pattern : String) : String :=
  String.ofList (pattern.toList.foldl (step meaning) ⟨[], none⟩).flush.reverse

end Pattern
end Stencil
