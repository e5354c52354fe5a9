/-
# Single-quoted literals

String literals of the generated code. Between single quotes a backslash
before a backslash or a quote makes that character plain, and every other
backslash stands for itself.

Key definitions:
* `quote`: a text as a literal.
* `slashed`: a text with a backslash before quotes, backslashes and NUL.
* `readQuoted?`: the text a literal stands for, and what follows the literal.
-/

namespace Stencil
namespace Text

/-- A single quote. -/
def apostrophe : Char := '\x27'

/-- One character inside a literal. -/
def quoteChar (c : Char) : List Char :=
  if c = '\\' ∨ c = apostrophe then ['\\', c] else [c]

/-- The characters of a literal. -/
def quoteChars (cs : List Char) : List Char :=
  apostrophe :: cs.flatMap quoteChar ++ [apostrophe]

/-- A text as a single-quoted literal. -/
def quote (s : String) : String := String.ofList (quoteChars s.toList)

/-- One character with a backslash where it needs one; NUL becomes a zero after
a backslash. -/
def slashChar (c : Char) : List Char :=
  if c = '\\' ∨ c = apostrophe ∨ c = '"' then ['\\', c]
  else if c = '\x00' then ['\\', '0']
  else [c]

/-- A text with a backslash before quotes, backslashes and NUL. -/
def slashed (s : String) : String := String.ofList (s.toList.flatMap slashChar)

/-- The rest of a literal after its opening quote. -/
def readQuotedBody? : List Char → Option (List Char × List Char)
  | [] => none
  | c :: cs =>
    if c = apostrophe then some ([], cs)
    else if c = '\\' then
      match cs with
      | d :: ds =>
        if d = '\\' ∨ d = apostrophe then (readQuotedBody? ds).map fun (s, r) => (d :: s, r)
        else (readQuotedBody? (d :: ds)).map fun (s, r) => (c :: s, r)
      | [] => none
    else (readQuotedBody? cs).map fun (s, r) => (c :: s, r)

/-- The text a single-quoted literal stands for, and what follows it. -/
def readQuoted? : List Char → Option (List Char × List Char)
  | [] => none
  | c :: cs => if c = apostrophe then readQuotedBody? cs else none

end Text
end Stencil
