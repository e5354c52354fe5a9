/-
# Code of operators and tests

The text an operator, an assignment or a test makes of the code of its
operands.

Key definitions:
* `BinaryOp.code`, `UnaryOp.code`, `AssignOp.sign`.
* `Code.test?`, `Code.operandTest`: built-in tests by name.
-/
import Stencil.Template.Operator

namespace Stencil

namespace Code

/-- Two operands around an operator sign. -/
def between (l sign r : String) : String := l ++ " " ++ sign ++ " " ++ r

/-- A function applied to code for its arguments. -/
def apply (f arguments : String) : String := f ++ "(" ++ arguments ++ ")"

/-- Pieces of code divided by commas. -/
def commas (pieces : List String) : String := ", ".intercalate pieces

end Code

open Code (between apply commas)

/-- The code of a binary operator. -/
def BinaryOp.code (op : BinaryOp) (l r : String) : String :=
  match op with
  | .and => between l "&&" r
  | .or => between l "||" r
  | .add => between l "+" r
  | .sub => between l "-" r
  | .mul => between l "*" r
  | .div => between l "/" r
  | .mod => between l "%" r
  | .concat => between l "." r
  | .equals => between l "==" r
  | .notEquals => between l "!=" r
  | .identical => between l "===" r
  | .notIdentical => between l "!==" r
  | .less => between l "<" r
  | .greater => between l ">" r
  | .lessEqual => between l "<=" r
  | .greaterEqual => between l ">=" r
  | .pow => apply "pow" (commas [l, r])
  | .range => apply "range" (commas [l, r])
  | .isIn => apply "$this->isIncluded" (commas [l, r])
  | .notIn => "!" ++ apply "$this->isIncluded" (commas [l, r])

/-- The code of a unary operator. -/
def UnaryOp.code (op : UnaryOp) (operand : String) : String :=
  match op with
  | .not => "!" ++ operand
  | .minus => "-" ++ operand
  | .plus => "+" ++ operand
  | .isset => apply "isset" operand
  | .notIsset => "!" ++ apply "isset" operand
  | .empty => apply "empty" operand
  | .notEmpty => "!" ++ apply "empty" operand

/-- The sign of an assignment operator. -/
def AssignOp.sign : AssignOp → String
  | .assign => "="
  | .addAssign => "+="
  | .subAssign => "-="
  | .mulAssign => "*="
  | .divAssign => "/="

namespace Code

/-- A built-in test that takes no operand. -/
def test? (name l : String) : Option String :=
  match name with
  | "empty" => some (apply "empty" l)
  | "even" => some ("(((" ++ l ++ ") % 2) == 0)")
  | "odd" => some ("(((" ++ l ++ ") % 2) != 0)")
  | "numeric" => some (apply "is_numeric" l)
  | "scalar" => some (apply "is_scalar" l)
  | "iterable" => some ("(is_array(" ++ l ++ ") || (" ++ l ++ ") instanceof Traversable)")
  | _ => none

/-- Names of the built-in tests that take operands. -/
def operandTests : List String := ["divisibleby", "sameas", "type"]

/-- A built-in test with operands; a name that is none compares types. -/
def operandTest (name l operands : String) : String :=
  match name with
  | "divisibleby" => "(((" ++ l ++ ") % (" ++ operands ++ ")) == 0)"
  | "sameas" => "(" ++ l ++ ") === (" ++ operands ++ ")"
  | _ => "gettype(" ++ l ++ ") === (" ++ operands ++ ")"

end Code
end Stencil
