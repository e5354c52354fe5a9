/-
# Records in JSON

How a record or a tagged variant is read from a JSON value. The fields of a
record are given by name in an object, or in order in an array. A field that is
named twice is an error; names the record does not have are skipped. The tag of
a variant is its name or its number, and stands under `type` in an object or
first in an array.

Key definitions:
* `fields?`: what is given for each field of a record.
* `required`, `optional`, `defaulted`: how a field that may be missing is read.
* `tagged?`, `variant?`, `choice?`: tags and enumerations.
-/
import Stencil.Json.Basic

namespace Stencil
namespace Json

/-! ### Scalars -/

/-- A string. -/
def string? : Json → Option String
  | .str s => some s
  | _ => none

/-- A truth value. -/
def bool? : Json → Option Bool
  | .bool b => some b
  | _ => none

/-- An integer of 64 bits with sign. -/
def int64? : Json → Option Int64
  | .int n => if -0x8000000000000000 ≤ n ∧ n < 0x8000000000000000 then some (Int64.ofInt n) else none
  | _ => none

/-- An integer of 32 bits without sign. -/
def uint32? : Json → Option UInt32
  | .int n => if 0 ≤ n ∧ n < 0x100000000 then some (UInt32.ofNat n.toNat) else none
  | _ => none

/-- An integer of 64 bits without sign. -/
def nat64? : Json → Option Nat
  | .int n => if 0 ≤ n ∧ n < 0x10000000000000000 then some n.toNat else none
  | _ => none

/-- A number, rounded to a double when it is given as an integer. -/
def double? : Json → Option Float
  | .double x => some x
  | .int n => some (Float.ofInt n)
  | _ => none

/-- An array, each item read by `item`. -/
def list? {α : Type} (item : Json → Option α) : Json → Option (List α)
  | .arr items => items.mapM item
  | _ => none

/-! ### Fields -/

/-- What an object gives for a name; nothing at all if the name is repeated. -/
def member? (name : String) (members : List (String × Json)) : Option (Option Json) :=
  match members.filter (·.1 == name) with
  | [] => some none
  | [(_, j)] => some (some j)
  | _ => none

/-- What is given for the named fields, in their order. An array may leave off
fields at its end but hold no more than there are. -/
def fields? (names : List String) : Json → Option (List (Option Json))
  | .obj members => names.mapM fun name => member? name members
  | .arr items =>
    if items.length ≤ names.length then
      some (items.map some ++ List.replicate (names.length - items.length) none)
    else none
  | _ => none

/-- A field that has to be given. -/
def required {α : Type} (read : Json → Option α) (given : Option Json) : Option α :=
  given.bind read

/-- A field that may be missing or null. -/
def optional {α : Type} (read : Json → Option α) : Option Json → Option (Option α)
  | none => some none
  | some .null => some none
  | some j => (read j).map some

/-- A field that may be missing. -/
def defaulted {α : Type} (fallback : α) (read : Json → Option α) : Option Json → Option α
  | none => some fallback
  | some j => read j

/-! ### Variants -/

/-- The tag of a variant and the rest of the value. -/
def tagged? : Json → Option (Json × Json)
  | .obj members =>
    match member? "type" members with
    | some (some tag) => some (tag, .obj (members.filter (·.1 != "type")))
    | _ => none
  | .arr (tag :: items) => some (tag, .arr items)
  | _ => none

/-- The variant a tag stands for: a name or a number. Names and numbers that
stand for none give `other`. -/
def variant? {κ : Type} (all : List κ) (name : κ → String) (other : κ) : Json → Option κ
  | .str s => some ((all.find? (name · == s)).getD other)
  | .int (.ofNat n) => some (all[n]?.getD other)
  | _ => none

/-- An element of an enumeration by its name, which may also be the only name
of an object that holds nothing under it. -/
def choice? {κ : Type} (all : List κ) (name : κ → String) : Json → Option κ
  | .str s => all.find? (name · == s)
  | .obj [(s, .null)] => all.find? (name · == s)
  | .obj [(s, .obj [])] => all.find? (name · == s)
  | _ => none

end Json
end Stencil
