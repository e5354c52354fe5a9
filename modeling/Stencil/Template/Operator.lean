/-
# Operators

The operators of template expressions and assignments, each with the name it
has in a serialized tree. An operator is looked up by that name.

Key definitions:
* `BinaryOp`, `UnaryOp`, `AssignOp`.
* `name`, `all`: the name of an operator, and the list of all of them.
-/

namespace Stencil

/-- Operators between two operands. -/
inductive BinaryOp where
  | and
  | or
  | add
  | sub
  | mul
  | div
  | mod
  | pow
  | concat
  | range
  | equals
  | notEquals
  | identical
  | notIdentical
  | less
  | greater
  | lessEqual
  | greaterEqual
  | isIn
  | notIn
  deriving Repr, DecidableEq

namespace BinaryOp

/-- Every binary operator. -/
def all : List BinaryOp :=
  [.and, .or, .add, .sub, .mul, .div, .mod, .pow, .concat, .range, .equals, .notEquals,
    .identical, .notIdentical, .less, .greater, .lessEqual, .greaterEqual, .isIn, .notIn]

/-- The name in a serialized tree. -/
def name : BinaryOp → String
  | .and => "and"
  | .or => "or"
  | .add => "add"
  | .sub => "sub"
  | .mul => "mul"
  | .div => "div"
  | .mod => "mod"
  | .pow => "pow"
  | .concat => "concat"
  | .range => "range"
  | .equals => "equals"
  | .notEquals => "not_equals"
  | .identical => "identical"
  | .notIdentical => "not_identical"
  | .less => "less"
  | .greater => "greater"
  | .lessEqual => "less_equal"
  | .greaterEqual => "greater_equal"
  | .isIn => "in"
  | .notIn => "not_in"

end BinaryOp

/-- Operators on one operand. -/
inductive UnaryOp where
  | not
  | minus
  | plus
  | isset
  | notIsset
  | empty
  | notEmpty
  deriving Repr, DecidableEq

namespace UnaryOp

/-- Every unary operator. -/
def all : List UnaryOp := [.not, .minus, .plus, .isset, .notIsset, .empty, .notEmpty]

/-- The name in a serialized tree. -/
def name : UnaryOp → String
  | .not => "not"
  | .minus => "minus"
  | .plus => "plus"
  | .isset => "isset"
  | .notIsset => "not_isset"
  | .empty => "empty"
  | .notEmpty => "not_empty"

end UnaryOp

/-- Ways of assigning a value to a target. -/
inductive AssignOp where
  | assign
  | addAssign
  | subAssign
  | mulAssign
  | divAssign
  deriving Repr, DecidableEq

namespace AssignOp

/-- Every assignment operator. -/
def all : List AssignOp := [.assign, .addAssign, .subAssign, .mulAssign, .divAssign]

/-- The name in a serialized tree. -/
def name : AssignOp → String
  | .assign => "assign"
  | .addAssign => "add_assign"
  | .subAssign => "sub_assign"
  | .mulAssign => "mul_assign"
  | .divAssign => "div_assign"

end AssignOp
end Stencil
