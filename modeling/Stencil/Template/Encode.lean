/-
# Writing template trees

A tree is written with the tag of each variant first and its fields in order;
a node's place comes last. A missing field is null, but the place of a node, the
keyword of an argument and the default of a parameter are left out when there
is none.

Key definitions:
* `Expr.json`, `Node.json`, `Template.json`: trees as JSON values.
* `Template.text`: a tree as JSON text.
-/
import Stencil.Json.Printer
import Stencil.Template.Node

namespace Stencil

namespace Json

/-- A field that is null when missing. -/
def orNull {α : Type} (write : α → Json) : Option α → Json
  | none => .null
  | some a => write a

/-- A field that is left out when missing. -/
def given {α : Type} (name : String) (write : α → Json) : Option α → List (String × Json)
  | none => []
  | some a => [(name, write a)]

end Json

namespace Expr

/-- A variant: its tag, then its fields. -/
def tagged (kind : Kind) (fields : List (String × Json)) : Json :=
  .obj (("type", .str kind.name) :: fields)

mutual

/-- An expression as a JSON value. -/
def json : Expr → Json
  | .integer v => tagged .integer [("value", .int v.toInt)]
  | .double v => tagged .double [("value", .double v)]
  | .str v => tagged .str [("value", .str v)]
  | .bool v => tagged .bool [("value", .bool v)]
  | .null => tagged .null []
  | .var n => tagged .var [("name", .str n)]
  | .property o a => tagged .property [("object", json o), ("attr", json a)]
  | .index o i => tagged .index [("object", json o), ("index", json i)]
  | .binary op l r => tagged .binary [("op", .str op.name), ("left", json l), ("right", json r)]
  | .unary op e => tagged .unary [("op", .str op.name), ("expr", json e)]
  | .call c as => tagged .call [("callee", json c), ("arguments", .arr (jsonArgs as))]
  | .filter l f => tagged .filter [("left", json l), ("filter", json f)]
  | .is l t => tagged .is [("left", json l), ("test", json t)]
  | .isNot l t => tagged .isNot [("left", json l), ("test", json t)]
  | .ternary c y n =>
    tagged .ternary [("condition", json c), ("then", json y), ("otherwise", json n)]
  | .slice o s e => tagged .slice [("object", json o), ("start", jsonOption s), ("end", jsonOption e)]
  | .array as => tagged .array [("items", .arr (jsonArgs as))]
  | .enclosed e => tagged .enclosed [("expr", json e)]
  | .resolved c => tagged .resolved [("code", .str c)]
  | .unknown => tagged .unknown []

/-- Arguments as JSON values. -/
def jsonArgs : List Arg → List Json
  | [] => []
  | ⟨e, name⟩ :: rest => .obj (("expr", json e) :: Json.given "name" .str name) :: jsonArgs rest

/-- An optional expression as a JSON value. -/
def jsonOption : Option Expr → Json
  | none => .null
  | some e => json e

end

end Expr

/-- An assignment as a JSON value. -/
def Assignment.json (a : Assignment) : Json :=
  .obj [("target", a.target.json), ("op", .str a.op.name), ("value", Json.orNull Expr.json a.value)]

/-- A macro parameter as a JSON value. -/
def Parameter.json (p : Parameter) : Json :=
  .obj (("name", .str p.name) :: Json.given "default" Expr.json p.fallback)

/-- The members that record a place. -/
def Position.members (p : Position) : List (String × Json) :=
  Json.given "file" .str p.file ++ Json.given "line" (fun l => .int l.toNat) p.line

mutual

/-- The fields of a statement. -/
def Stmt.members : Stmt → List (String × Json)
  | .text v => [("value", .str v)]
  | .echo e => [("expr", Expr.jsonOption e)]
  | .ifThen c b e =>
    [("condition", Expr.jsonOption c), ("body", .arr (Node.jsonList b)),
      ("else_body", Node.jsonOption e)]
  | .elseIf c => [("condition", Expr.jsonOption c)]
  | .switchOn e c => [("expr", Expr.jsonOption e), ("cases", .arr (Node.jsonList c))]
  | .caseOf e => [("expr", Expr.jsonOption e)]
  | .caseDefault => []
  | .forIn t k i g b =>
    [("target", .str t), ("key", Json.orNull .str k), ("iterable", Expr.jsonOption i),
      ("guard", Expr.jsonOption g), ("body", .arr (Node.jsonList b))]
  | .forElse => []
  | .assign as => [("assignments", .arr (as.map Assignment.json))]
  | .block n b => [("name", .str n), ("body", .arr (Node.jsonList b))]
  | .extending p => [("path", Expr.jsonOption p)]
  | .including p a => [("path", Expr.jsonOption p), ("params", Expr.jsonOption a)]
  | .macroDef n p b =>
    [("name", .str n), ("parameters", .arr (p.map Parameter.json)),
      ("body", .arr (Node.jsonList b))]
  | .evaluate e => [("expr", Expr.jsonOption e)]
  | .returning e => [("expr", Expr.jsonOption e)]
  | .autoescape e b => [("enabled", Json.orNull .bool e), ("body", .arr (Node.jsonList b))]
  | .continueLoop => []
  | .breakLoop => []
  | .cached k l b =>
    [("key", Expr.jsonOption k), ("lifetime", Expr.jsonOption l), ("body", .arr (Node.jsonList b))]
  | .unknown => []

/-- A node as a JSON value. -/
def Node.json : Node → Json
  | .mk s p => .obj (("type", .str s.kind.name) :: Stmt.members s ++ p.members)

/-- Nodes as JSON values. -/
def Node.jsonList : List Node → List Json
  | [] => []
  | n :: rest => Node.json n :: Node.jsonList rest

/-- An optional list of nodes as a JSON value. -/
def Node.jsonOption : Option (List Node) → Json
  | none => .null
  | some ns => .arr (Node.jsonList ns)

end

namespace Template

/-- A template as a JSON value. -/
def json (t : Template) : Json := .arr (Node.jsonList t)

/-- A template as JSON text. -/
def text (t : Template) : String := (json t).render

end Template
end Stencil
