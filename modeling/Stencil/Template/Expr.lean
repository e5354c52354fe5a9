/-
# Template expressions

The expression part of a template tree. A tree may hold expressions this
library does not know; they stand as `unknown` until something has to be
emitted for them.

Key definitions:
* `Expr`, `Argument`: expressions, and the arguments of calls and arrays.
* `Expr.Kind`: which constructor an expression is made with.
* `Expr.same`: equality that does not tell the two zeros apart.
-/
import Stencil.Template.Operator

namespace Stencil

/-- An argument of a call or an item of an array, perhaps with a keyword. -/
structure Argument (ε : Type) where
  expr : ε
  name : Option String

/-- An expression of a template. -/
inductive Expr where
  | integer (value : Int64)
  | double (value : Float)
  | str (value : String)
  | bool (value : Bool)
  | null
  | var (name : String)
  | property (object attr : Expr)
  | index (object index : Expr)
  | binary (op : BinaryOp) (left right : Expr)
  | unary (op : UnaryOp) (operand : Expr)
  | call (callee : Expr) (arguments : List (Argument Expr))
  | filter (left filter : Expr)
  | is (left test : Expr)
  | isNot (left test : Expr)
  | ternary (condition yes no : Expr)
  | slice (object : Expr) (start stop : Option Expr)
  | array (items : List (Argument Expr))
  | enclosed (inner : Expr)
  /-- Code that needs no further work. -/
  | resolved (code : String)
  | unknown

/-- An argument of a template expression. -/
abbrev Arg := Argument Expr

instance : Inhabited Expr := ⟨.null⟩

namespace Expr

/-- Which constructor an expression is made with. -/
inductive Kind where
  | integer
  | double
  | str
  | bool
  | null
  | var
  | property
  | index
  | binary
  | unary
  | call
  | filter
  | is
  | isNot
  | ternary
  | slice
  | array
  | enclosed
  | resolved
  | unknown
  deriving Repr, DecidableEq

namespace Kind

/-- Every kind, in the order by which a serialized tree may number them. -/
def all : List Kind :=
  [.integer, .double, .str, .bool, .null, .var, .property, .index, .binary, .unary, .call,
    .filter, .is, .isNot, .ternary, .slice, .array, .enclosed, .resolved, .unknown]

/-- The name in a serialized tree. -/
def name : Kind → String
  | .integer => "integer"
  | .double => "double"
  | .str => "string_lit"
  | .bool => "bool_lit"
  | .null => "null"
  | .var => "var"
  | .property => "attribute"
  | .index => "index"
  | .binary => "bin_op"
  | .unary => "unary_op"
  | .call => "call"
  | .filter => "filter"
  | .is => "is"
  | .isNot => "is_not"
  | .ternary => "ternary"
  | .slice => "slice"
  | .array => "array"
  | .enclosed => "enclosed"
  | .resolved => "resolved"
  | .unknown => "unknown"

end Kind

/-- The kind of an expression. -/
def kind : Expr → Kind
  | .integer _ => .integer
  | .double _ => .double
  | .str _ => .str
  | .bool _ => .bool
  | .null => .null
  | .var _ => .var
  | .property .. => .property
  | .index .. => .index
  | .binary .. => .binary
  | .unary .. => .unary
  | .call .. => .call
  | .filter .. => .filter
  | .is .. => .is
  | .isNot .. => .isNot
  | .ternary .. => .ternary
  | .slice .. => .slice
  | .array _ => .array
  | .enclosed _ => .enclosed
  | .resolved _ => .resolved
  | .unknown => .unknown

/-- The name of a bare variable. -/
def ident? : Expr → Option String
  | .var name => some name
  | _ => none

/-- A call whose callee is the bare name `super`. -/
def isSuper : Expr → Bool
  | .call (.var name) _ => name == "super"
  | _ => false

mutual

/-- Equality of expressions; doubles are compared as numbers. -/
def same : Expr → Expr → Bool
  | .integer m, .integer n => m == n
  | .double x, .double y => x == y
  | .str s, .str t => s == t
  | .bool a, .bool b => a == b
  | .null, .null => true
  | .var m, .var n => m == n
  | .property o a, .property p b => same o p && same a b
  | .index o i, .index p j => same o p && same i j
  | .binary op l r, .binary oq m s => op == oq && same l m && same r s
  | .unary op e, .unary oq f => op == oq && same e f
  | .call c as, .call d bs => same c d && sameArgs as bs
  | .filter l f, .filter m g => same l m && same f g
  | .is l t, .is m u => same l m && same t u
  | .isNot l t, .isNot m u => same l m && same t u
  | .ternary c y n, .ternary d z o => same c d && same y z && same n o
  | .slice o s e, .slice p t f => same o p && sameOption s t && sameOption e f
  | .array as, .array bs => sameArgs as bs
  | .enclosed e, .enclosed f => same e f
  | .resolved c, .resolved d => c == d
  | .unknown, .unknown => true
  | _, _ => false

/-- Equality of argument lists. -/
def sameArgs : List Arg → List Arg → Bool
  | [], [] => true
  | ⟨e, m⟩ :: as, ⟨f, n⟩ :: bs => same e f && m == n && sameArgs as bs
  | _, _ => false

/-- Equality of optional expressions. -/
def sameOption : Option Expr → Option Expr → Bool
  | none, none => true
  | some e, some f => same e f
  | _, _ => false

end

end Expr
end Stencil
