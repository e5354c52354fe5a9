/-
# JSON values

A value keeps the members of an object in text order, repeated names
included: whether a repetition matters is for the reader of a record to say.

Key definitions:
* `Json`: a value; integers are apart from doubles.
* `Json.depth`: how deep arrays and objects nest.
-/

namespace Stencil

/-- A JSON value, members in text order. -/
inductive Json where
  | null
  | bool (value : Bool)
  | int (value : Int)
  | double (value : Float)
  | str (value : String)
  | arr (items : List Json)
  | obj (members : List (String × Json))
  deriving Inhabited

namespace Json

mutual

/-- How deep arrays and objects nest; a scalar has depth 0. -/
def depth : Json → Nat
  | .arr items => depthItems items + 1
  | .obj members => depthMembers members + 1
  | _ => 0

/-- The greatest depth among array items. -/
def depthItems : List Json → Nat
  | [] => 0
  | j :: rest => max (depth j) (depthItems rest)

/-- The greatest depth among the members of an object. -/
def depthMembers : List (String × Json) → Nat
  | [] => 0
  | (_, j) :: rest => max (depth j) (depthMembers rest)

end

end Json
end Stencil
