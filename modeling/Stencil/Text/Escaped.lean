/-
# Texts for inspection

A text as it is shown to someone inspecting a value: in double quotes, with
the characters that cannot be seen spelled by their number.

Key definitions:
* `escaped`: a text in double quotes.
-/
import Stencil.Text.LowerTable
import Stencil.Text.EscapedTable

namespace Stencil
namespace Text

/-- A character spelled by its number in base 16. -/
def byNumber (c : Char) : List Char :=
  ['\\', 'u', '\x7b'] ++ Nat.toDigits 16 c.toNat ++ ['\x7d']

/-- One character of a text in double quotes. -/
def escapeChar (c : Char) : List Char :=
  if c = '"' ∨ c = '\\' then ['\\', c]
  else if c = '\n' then ['\\', 'n']
  else if c = '\r' then ['\\', 'r']
  else if c = '\t' then ['\\', 't']
  else if c = '\x00' then ['\\', '0']
  else if c.toNat < 0x20 || inRanges hiddenRanges c then byNumber c
  else [c]

/-- A text in double quotes. -/
def escaped (s : String) : String := String.ofList (['"'] ++ s.toList.flatMap escapeChar ++ ['"'])

end Text
end Stencil
