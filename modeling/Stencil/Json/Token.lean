/-
# JSON tokens

The characters of a JSON text are read one at a time by a scanner whose state
says what it is inside of: nothing, a string, an escape, a word or a number. A
word or number ends where the next character cannot belong to it.

Key definitions:
* `Token`: punctuation, scalars and strings.
* `Scanner.step`: what one character does.
* `tokens?`: the tokens of a text, if every one of them is well formed.
-/
import Stencil.Decimal.Read

namespace Stencil
namespace Json

/-- A lexical unit of JSON text. -/
inductive Token where
  | openBrace
  | closeBrace
  | openBracket
  | closeBracket
  | comma
  | colon
  | null
  | bool (value : Bool)
  | int (value : Int)
  | double (value : Float)
  | str (value : String)

/-- What the scanner is inside of. Collected characters are in reverse. -/
inductive Inside where
  | nothing
  | string (read : List Char)
  | escape (read : List Char)
  /-- After `\u`: the high surrogate waiting for its partner, the number of hex
  digits still to come, and the value of those seen. -/
  | hex (read : List Char) (high : Option Nat) (missing : Nat) (value : Nat)
  /-- After a high surrogate: its partner's backslash is next. -/
  | partner (read : List Char) (high : Nat)
  /-- After a high surrogate and a backslash: the `u` is next. -/
  | partnerMark (read : List Char) (high : Nat)
  | word (read : List Char)
  | number (read : List Char)

/-- The tokens read so far, in reverse, and what the scanner is inside of. -/
structure Scanner where
  tokens : List Token
  inside : Inside

/-- Space, tab, line feed and carriage return. -/
def isSpace (c : Char) : Bool := c == ' ' || c == '\t' || c == '\n' || c == '\r'

/-- Characters of number literals. -/
def isNumeral (c : Char) : Bool :=
  c.isDigit || c == '-' || c == '+' || c == '.' || c == 'e' || c == 'E'

/-- Value of a hex digit. -/
def hexDigit? (c : Char) : Option Nat :=
  if c.isDigit then some (c.toNat - '0'.toNat)
  else if 'a' ≤ c ∧ c ≤ 'f' then some (c.toNat - 'a'.toNat + 10)
  else if 'A' ≤ c ∧ c ≤ 'F' then some (c.toNat - 'A'.toNat + 10)
  else none

/-- The character named by one letter after a backslash. -/
def escaped? (c : Char) : Option Char :=
  if c = '"' ∨ c = '\\' ∨ c = '/' then some c
  else if c = 'b' then some '\x08'
  else if c = 't' then some '\t'
  else if c = 'n' then some '\n'
  else if c = 'f' then some '\x0c'
  else if c = 'r' then some '\r'
  else none

/-- A code unit is the first half of a surrogate pair. -/
def isHigh (unit : Nat) : Bool := 0xd800 ≤ unit && unit < 0xdc00

/-- A code unit is the second half of a surrogate pair. -/
def isLow (unit : Nat) : Bool := 0xdc00 ≤ unit && unit < 0xe000

/-- What follows a complete `\u` escape: a character, a wait for the second half
of a pair, or nothing when the halves do not match. -/
def unit? (read : List Char) (high : Option Nat) (unit : Nat) : Option Inside :=
  match high with
  | some h =>
    if isLow unit then
      some (.string (Char.ofNat (0x10000 + (h - 0xd800) * 0x400 + (unit - 0xdc00)) :: read))
    else none
  | none =>
    if isHigh unit then some (.partner read unit)
    else if isLow unit then none
    else some (.string (Char.ofNat unit :: read))

/-- The token of a bare word. -/
def word? (read : List Char) : Option Token :=
  match read.reverse with
  | ['n', 'u', 'l', 'l'] => some .null
  | ['t', 'r', 'u', 'e'] => some (.bool true)
  | ['f', 'a', 'l', 's', 'e'] => some (.bool false)
  | _ => none

/-- The token of a number literal. -/
def number? (read : List Char) : Option Token := do
  let literal ← Decimal.Literal.ofChars? read.reverse
  match ← literal.value? with
  | .int n => some (.int n)
  | .double f => some (.double f)

namespace Scanner

/-- The scanner on a character that starts something new. -/
def start (done : List Token) (c : Char) : Option Scanner :=
  if isSpace c then some ⟨done, .nothing⟩
  else if c = '"' then some ⟨done, .string []⟩
  else if c.isDigit || c == '-' then some ⟨done, .number [c]⟩
  else if c.isAlpha then some ⟨done, .word [c]⟩
  else if c = '\x7b' then some ⟨.openBrace :: done, .nothing⟩
  else if c = '\x7d' then some ⟨.closeBrace :: done, .nothing⟩
  else if c = '[' then some ⟨.openBracket :: done, .nothing⟩
  else if c = ']' then some ⟨.closeBracket :: done, .nothing⟩
  else if c = ',' then some ⟨.comma :: done, .nothing⟩
  else if c = ':' then some ⟨.colon :: done, .nothing⟩
  else none

/-- What one character does. -/
def step (s : Scanner) (c : Char) : Option Scanner :=
  match s.inside with
  | .nothing => start s.tokens c
  | .word read =>
    if c.isAlpha then some ⟨s.tokens, .word (c :: read)⟩
    else (word? read).bind fun t => start (t :: s.tokens) c
  | .number read =>
    if isNumeral c then some ⟨s.tokens, .number (c :: read)⟩
    else (number? read).bind fun t => start (t :: s.tokens) c
  | .string read =>
    if c = '"' then some ⟨.str (String.ofList read.reverse) :: s.tokens, .nothing⟩
    else if c = '\\' then some ⟨s.tokens, .escape read⟩
    else if c.toNat < 0x20 then none
    else some ⟨s.tokens, .string (c :: read)⟩
  | .escape read =>
    if c = 'u' then some ⟨s.tokens, .hex read none 4 0⟩
    else (escaped? c).map fun e => ⟨s.tokens, .string (e :: read)⟩
  | .hex read high missing value =>
    (hexDigit? c).bind fun d =>
      let value := 16 * value + d
      if missing ≤ 1 then (unit? read high value).map fun i => ⟨s.tokens, i⟩
      else some ⟨s.tokens, .hex read high (missing - 1) value⟩
  | .partner read high => if c = '\\' then some ⟨s.tokens, .partnerMark read high⟩ else none
  | .partnerMark read high => if c = 'u' then some ⟨s.tokens, .hex read (some high) 4 0⟩ else none

/-- The tokens at the end of the text; a string may not be left open. -/
def finish (s : Scanner) : Option (List Token) :=
  match s.inside with
  | .nothing => some s.tokens.reverse
  | .word read => (word? read).map fun t => (t :: s.tokens).reverse
  | .number read => (number? read).map fun t => (t :: s.tokens).reverse
  | _ => none

end Scanner

/-- The tokens of a text. -/
def tokens? (cs : List Char) : Option (List Token) :=
  (cs.foldlM Scanner.step ⟨[], .nothing⟩).bind Scanner.finish

end Json
end Stencil
