/-
# Writing JSON text

Text is compact: no spaces, members in the order they are held. Strings escape
the quote, the backslash and control characters below space, and nothing else.

Key definitions:
* `Json.chars`, `Json.render`: the text of a value.
* `Json.numeral`: how doubles are written.
-/
import Stencil.Json.Basic
import Stencil.Decimal.Numeral

namespace Stencil
namespace Json

/-- Doubles are positional from 0.00001 up to 10^16 and carry the sign of their
exponent; a value that is not finite is null. -/
def numeral : Decimal.Numeral where
  lowest := -5
  beyond := 16
  mark := "e+"
  tie := .toEven
  infinite := "null"
  notANumber := "null"

/-- One character inside a string. -/
def escape (c : Char) : List Char :=
  if c = '"' then ['\\', '"']
  else if c = '\\' then ['\\', '\\']
  else if c = '\x08' then ['\\', 'b']
  else if c = '\t' then ['\\', 't']
  else if c = '\n' then ['\\', 'n']
  else if c = '\x0c' then ['\\', 'f']
  else if c = '\r' then ['\\', 'r']
  else if c.toNat < 0x20 then
    ['\\', 'u', '0', '0', Nat.digitChar (c.toNat / 16), Nat.digitChar (c.toNat % 16)]
  else [c]

/-- A string in quotes. -/
def quoted (s : String) : List Char := ['"'] ++ s.toList.flatMap escape ++ ['"']

/-- A finite double in its written form; a double that is not finite is null. -/
def doubleChars (x : Float) : List Char :=
  if x.isFinite then (numeral.render x).toList else ['n', 'u', 'l', 'l']

/-- The decimal digits of an integer. -/
def intChars : Int → List Char
  | .ofNat n => Nat.toDigits 10 n
  | .negSucc n => '-' :: Nat.toDigits 10 (n + 1)

mutual

/-- The characters of a value. -/
def chars : Json → List Char
  | .null => ['n', 'u', 'l', 'l']
  | .bool true => ['t', 'r', 'u', 'e']
  | .bool false => ['f', 'a', 'l', 's', 'e']
  | .int n => intChars n
  | .double x => doubleChars x
  | .str s => quoted s
  | .arr items => ['['] ++ itemChars items ++ [']']
  | .obj members => ['\x7b'] ++ memberChars members ++ ['\x7d']

/-- Array items, divided by commas. -/
def itemChars : List Json → List Char
  | [] => []
  | [j] => chars j
  | j :: rest => chars j ++ [','] ++ itemChars rest

/-- Members of an object, divided by commas. -/
def memberChars : List (String × Json) → List Char
  | [] => []
  | [(name, j)] => quoted name ++ [':'] ++ chars j
  | (name, j) :: rest => quoted name ++ [':'] ++ chars j ++ [','] ++ memberChars rest

end

/-- The text of a value. -/
def render (j : Json) : String := String.ofList j.chars

end Json
end Stencil
