/-
# Blanks

Two notions of blank text: the white space of Unicode, and the spaces and tabs
within a line, which `tidy` reduces in two passes: first those at the edges of
lines, then the runs of several. A carriage return, a line feed or both in this
order end a line.

Key definitions:
* `isBlankText`: a text of white space only.
* `replaceAll`: a text with another one for every match.
* `tidy`: no blanks at the edges of a line, no run of two blanks within it.
-/

namespace Stencil
namespace Text

/-- The characters with the property White_Space. -/
def isWhiteSpace (c : Char) : Bool :=
  let n := c.toNat
  (0x09 ≤ n && n ≤ 0x0d) || n == 0x20 || n == 0x85 || n == 0xa0 || n == 0x1680 ||
    (0x2000 ≤ n && n ≤ 0x200a) || n == 0x2028 || n == 0x2029 || n == 0x202f || n == 0x205f ||
    n == 0x3000

/-- The text holds white space only, or nothing. -/
def isBlankText (s : String) : Bool := s.toList.all isWhiteSpace

/-- A space or a tab. -/
def isBlank (c : Char) : Bool := c == ' ' || c == '\t'

/-- A line starts between the two parts of a text, the first one given
backwards: at the start of the text, after a line feed, and after a carriage
return that no line feed follows. -/
def startsLine : List Char → List Char → Bool
  | [], _ => true
  | c :: _, after => c == '\n' || (c == '\r' && after.head? != some '\n')

/-- A line ends between the two parts of a text: at the end of the text, before
a carriage return, and before a line feed that follows no carriage return. -/
def endsLine : List Char → List Char → Bool
  | _, [] => true
  | before, c :: _ => c == '\r' || (c == '\n' && before.head? != some '\r')

/-- The blanks that a text starts with. -/
def blanks (cs : List Char) : List Char := cs.takeWhile isBlank

/-- How many blanks at the edge of a line follow: all that follow if the line
starts before them or ends after them, and none otherwise. -/
def edgeAt (before after : List Char) : Nat :=
  if startsLine before after ||
      endsLine ((blanks after).reverse ++ before) (after.dropWhile isBlank) then
    (blanks after).length
  else 0

/-- How many blanks in a run of several follow. -/
def runAt (_before after : List Char) : Nat :=
  if 2 ≤ (blanks after).length then (blanks after).length else 0

/-- A text with `new` for every match, from left to right. `found` counts the
characters that match between what comes before, backwards, and what follows;
`left` of the last match are still to be passed over. -/
def replaceAll (found : List Char → List Char → Nat) (new : List Char) :
    List Char → Nat → List Char → List Char
  | _, _, [] => []
  | before, left + 1, c :: cs => replaceAll found new (c :: before) left cs
  | before, 0, c :: cs =>
    match found before (c :: cs) with
    | 0 => c :: replaceAll found new (c :: before) 0 cs
    | left + 1 => new ++ replaceAll found new (c :: before) left cs

/-- Every line without the blanks at its edges. -/
def trimLines (cs : List Char) : List Char := replaceAll edgeAt [] [] 0 cs

/-- A space for every run of several blanks. -/
def joinRuns (cs : List Char) : List Char := replaceAll runAt [' '] [] 0 cs

/-- Every line without blanks at its edges, and then with single blanks inside. -/
def tidy (s : String) : String := String.ofList (joinRuns (trimLines s.toList))

end Text
end Stencil
