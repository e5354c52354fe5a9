/-
# Lower case

A text in lower case: each character goes to its small letter or letters, and
a capital sigma at the end of a word goes to the final form of the letter.

Key definitions:
* `lowerChar`: the small letters of a character on its own.
* `lower`: a text in lower case.
-/
import Stencil.Text.LowerTable

namespace Stencil
namespace Text

/-- The small letters of a character taken on its own. The capital I with a dot
keeps its dot as a mark of its own. -/
def lowerChar (c : Char) : List Char :=
  if c = 'İ' then ['i', '̇']
  else
    match lowerRuns.find? fun (first, last, step, _) =>
        first ≤ c.toNat && c.toNat ≤ last && (c.toNat - first) % step == 0 with
    | some (first, _, _, small) => [Char.ofNat (small + (c.toNat - first))]
    | none => [c]

/-- The nearest character that is not passed over has case. -/
def meetsCased (cs : List Char) : Bool :=
  match cs.dropWhile (inRanges ignorableRanges) with
  | c :: _ => inRanges casedRanges c
  | [] => false

/-- Lower case of the characters that follow `before`, which is in reverse. -/
def lowerFrom (before : List Char) : List Char → List Char
  | [] => []
  | c :: rest =>
    let small :=
      if c = 'Σ' then [if meetsCased before && !meetsCased rest then 'ς' else 'σ'] else lowerChar c
    small ++ lowerFrom (c :: before) rest

/-- A text in lower case. -/
def lower (s : String) : String := String.ofList (lowerFrom [] s.toList)

end Text
end Stencil
