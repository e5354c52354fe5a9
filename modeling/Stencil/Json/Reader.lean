/-
# Reading JSON text

Tokens are read from left to right with the arrays and objects still open held
in a stack. At most 127 of them may be open at once.

Key definitions:
* `Builder.step`: what one token does.
* `Json.parse?`: the value of a text that holds one value and nothing else.
-/
import Stencil.Json.Basic
import Stencil.Json.Token

namespace Stencil
namespace Json

/-- An array or object still open, what it holds so far in reverse. -/
inductive Frame where
  | arr (items : List Json)
  /-- An object, and the name whose value is being read. -/
  | obj (members : List (String × Json)) (name : String)

/-- What may come next. -/
inductive Expect where
  | value
  /-- After an opening bracket: an item, or the end of the array. -/
  | item
  /-- After an opening brace: a name, or the end of the object. -/
  | member
  /-- After a comma in an object. -/
  | name
  /-- After a name. -/
  | colon (name : String)
  /-- After a value: what the innermost open array or object says. -/
  | more (value : Json)

/-- The open arrays and objects, innermost first, and what may come next. -/
structure Builder where
  stack : List Frame
  expect : Expect

/-- How many arrays and objects may be open at once. -/
def maxDepth : Nat := 127

namespace Builder

/-- Open an array or object, unless too many are open. -/
def nest (frame : Frame) (stack : List Frame) (expect : Expect) : Option Builder :=
  if stack.length < maxDepth then some ⟨frame :: stack, expect⟩ else none

/-- A token where a value has to start. -/
def value (stack : List Frame) : Token → Option Builder
  | .null => some ⟨stack, .more .null⟩
  | .bool b => some ⟨stack, .more (.bool b)⟩
  | .int n => some ⟨stack, .more (.int n)⟩
  | .double f => some ⟨stack, .more (.double f)⟩
  | .str s => some ⟨stack, .more (.str s)⟩
  | .openBracket => nest (.arr []) stack .item
  | .openBrace => nest (.obj [] "") stack .member
  | _ => none

/-- A token after a complete value. -/
def more (value : Json) : List Frame → Token → Option Builder
  | .arr items :: stack, .comma => some ⟨.arr (value :: items) :: stack, .value⟩
  | .arr items :: stack, .closeBracket => some ⟨stack, .more (.arr (value :: items).reverse)⟩
  | .obj members name :: stack, .comma => some ⟨.obj ((name, value) :: members) "" :: stack, .name⟩
  | .obj members name :: stack, .closeBrace =>
    some ⟨stack, .more (.obj ((name, value) :: members).reverse)⟩
  | _, _ => none

/-- A colon after a name: the name's value is next. -/
def named (name : String) : List Frame → Option Builder
  | .obj members _ :: stack => some ⟨.obj members name :: stack, .value⟩
  | _ => none

/-- What one token does. -/
def step (b : Builder) (t : Token) : Option Builder :=
  match b.expect, t with
  | .value, t => value b.stack t
  | .item, .closeBracket => some ⟨b.stack.tail, .more (.arr [])⟩
  | .item, t => value b.stack t
  | .member, .closeBrace => some ⟨b.stack.tail, .more (.obj [])⟩
  | .member, .str name => some ⟨b.stack, .colon name⟩
  | .name, .str name => some ⟨b.stack, .colon name⟩
  | .colon name, .colon => named name b.stack
  | .more j, t => more j b.stack t
  | _, _ => none

/-- The value, once it is complete and nothing is open. -/
def finish (b : Builder) : Option Json :=
  match b.stack, b.expect with
  | [], .more j => some j
  | _, _ => none

end Builder

/-- The value spelled by a list of tokens. -/
def ofTokens? (ts : List Token) : Option Json :=
  (ts.foldlM Builder.step ⟨[], .value⟩).bind Builder.finish

/-- The value of a JSON text. -/
def parse? (text : String) : Option Json := (tokens? text.toList).bind ofTokens?

end Json
end Stencil
