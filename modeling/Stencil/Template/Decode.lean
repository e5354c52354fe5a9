/-
# Reading template trees

A template tree is read from JSON text. Reading a value goes no deeper than the
value nests, so the recursion counts down its depth.

Key definitions:
* `Expr.ofJson?`, `Template.ofJson?`: trees from JSON values.
* `Expr.parse?`, `Template.parse?`: trees from JSON text.
-/
import Stencil.Json.Reader
import Stencil.Json.Record
import Stencil.Template.Node

namespace Stencil

open Json (fields? required optional defaulted)

/-- An argument, given a reader for its expression. -/
def Argument.read (expr : Json → Option Expr) (j : Json) : Option Arg := do
  match ← j.fields? ["expr", "name"] with
  | [e, name] => some ⟨← required expr e, ← optional Json.string? name⟩
  | _ => none

namespace Expr

/-- The fields of an expression of a given kind. -/
def readFields (expr : Json → Option Expr) (kind : Kind) (j : Json) : Option Expr :=
  let arguments := Json.list? (Argument.read expr)
  match kind with
  | .integer => do
    match ← j.fields? ["value"] with
    | [v] => some (.integer (← required Json.int64? v))
    | _ => none
  | .double => do
    match ← j.fields? ["value"] with
    | [v] => some (.double (← required Json.double? v))
    | _ => none
  | .str => do
    match ← j.fields? ["value"] with
    | [v] => some (.str (← required Json.string? v))
    | _ => none
  | .bool => do
    match ← j.fields? ["value"] with
    | [v] => some (.bool (← required Json.bool? v))
    | _ => none
  | .null => (j.fields? []).map fun _ => .null
  | .var => do
    match ← j.fields? ["name"] with
    | [n] => some (.var (← required Json.string? n))
    | _ => none
  | .property => do
    match ← j.fields? ["object", "attr"] with
    | [o, a] => some (.property (← required expr o) (← required expr a))
    | _ => none
  | .index => do
    match ← j.fields? ["object", "index"] with
    | [o, i] => some (.index (← required expr o) (← required expr i))
    | _ => none
  | .binary => do
    match ← j.fields? ["op", "left", "right"] with
    | [op, l, r] =>
      let op ← required (Json.choice? BinaryOp.all BinaryOp.name) op
      some (.binary op (← required expr l) (← required expr r))
    | _ => none
  | .unary => do
    match ← j.fields? ["op", "expr"] with
    | [op, e] =>
      let op ← required (Json.choice? UnaryOp.all UnaryOp.name) op
      some (.unary op (← required expr e))
    | _ => none
  | .call => do
    match ← j.fields? ["callee", "arguments"] with
    | [c, as] => some (.call (← required expr c) (← defaulted [] arguments as))
    | _ => none
  | .filter => do
    match ← j.fields? ["left", "filter"] with
    | [l, f] => some (.filter (← required expr l) (← required expr f))
    | _ => none
  | .is => do
    match ← j.fields? ["left", "test"] with
    | [l, t] => some (.is (← required expr l) (← required expr t))
    | _ => none
  | .isNot => do
    match ← j.fields? ["left", "test"] with
    | [l, t] => some (.isNot (← required expr l) (← required expr t))
    | _ => none
  | .ternary => do
    match ← j.fields? ["condition", "then", "otherwise"] with
    | [c, y, n] => some (.ternary (← required expr c) (← required expr y) (← required expr n))
    | _ => none
  | .slice => do
    match ← j.fields? ["object", "start", "end"] with
    | [o, s, e] => some (.slice (← required expr o) (← optional expr s) (← optional expr e))
    | _ => none
  | .array => do
    match ← j.fields? ["items"] with
    | [as] => some (.array (← defaulted [] arguments as))
    | _ => none
  | .enclosed => do
    match ← j.fields? ["expr"] with
    | [e] => some (.enclosed (← required expr e))
    | _ => none
  | .resolved => do
    match ← j.fields? ["code"] with
    | [c] => some (.resolved (← required Json.string? c))
    | _ => none
  | .unknown => (j.fields? []).map fun _ => .unknown

/-- An expression that nests at most `depth` deep. -/
def read : Nat → Json → Option Expr
  | 0, _ => none
  | depth + 1, j => do
    let (tag, rest) ← j.tagged?
    let kind ← Json.variant? Kind.all Kind.name .unknown tag
    readFields (read depth) kind rest

/-- The expression a JSON value stands for. -/
def ofJson? (j : Json) : Option Expr := read j.depth j

/-- The expression of a JSON text. A tag inside it may be a number, but its own is
a name. -/
def parse? (text : String) : Option Expr := do
  let j ← Json.parse? text
  match ← j.tagged? with
  | (.str _, _) => ofJson? j
  | _ => none

end Expr

/-- An assignment of a `set` statement. -/
def Assignment.ofJson? (j : Json) : Option Assignment := do
  match ← j.fields? ["target", "op", "value"] with
  | [t, op, v] =>
    let target ← required Expr.ofJson? t
    let op ← defaulted .assign (Json.choice? AssignOp.all AssignOp.name) op
    some ⟨target, op, ← optional Expr.ofJson? v⟩
  | _ => none

/-- A macro parameter. -/
def Parameter.ofJson? (j : Json) : Option Parameter := do
  match ← j.fields? ["name", "default"] with
  | [n, d] => some ⟨← required Json.string? n, ← optional Expr.ofJson? d⟩
  | _ => none

namespace Stmt

/-- The fields of a statement of a given kind, given a reader for nodes. -/
def readFields (node : Json → Option Node) (kind : Kind) (j : Json) : Option Stmt :=
  let expr := optional Expr.ofJson?
  let nodes := Json.list? node
  match kind with
  | .text => do
    match ← j.fields? ["value"] with
    | [v] => some (.text (← required Json.string? v))
    | _ => none
  | .echo => do
    match ← j.fields? ["expr"] with
    | [e] => some (.echo (← expr e))
    | _ => none
  | .ifThen => do
    match ← j.fields? ["condition", "body", "else_body"] with
    | [c, b, e] => some (.ifThen (← expr c) (← defaulted [] nodes b) (← optional nodes e))
    | _ => none
  | .elseIf => do
    match ← j.fields? ["condition"] with
    | [c] => some (.elseIf (← expr c))
    | _ => none
  | .switchOn => do
    match ← j.fields? ["expr", "cases"] with
    | [e, c] => some (.switchOn (← expr e) (← defaulted [] nodes c))
    | _ => none
  | .caseOf => do
    match ← j.fields? ["expr"] with
    | [e] => some (.caseOf (← expr e))
    | _ => none
  | .caseDefault => (j.fields? []).map fun _ => .caseDefault
  | .forIn => do
    match ← j.fields? ["target", "key", "iterable", "guard", "body"] with
    | [t, k, i, g, b] =>
      let target ← required Json.string? t
      let key ← optional Json.string? k
      some (.forIn target key (← expr i) (← expr g) (← defaulted [] nodes b))
    | _ => none
  | .forElse => (j.fields? []).map fun _ => .forElse
  | .assign => do
    match ← j.fields? ["assignments"] with
    | [as] => some (.assign (← defaulted [] (Json.list? Assignment.ofJson?) as))
    | _ => none
  | .block => do
    match ← j.fields? ["name", "body"] with
    | [n, b] => some (.block (← required Json.string? n) (← defaulted [] nodes b))
    | _ => none
  | .extending => do
    match ← j.fields? ["path"] with
    | [p] => some (.extending (← expr p))
    | _ => none
  | .including => do
    match ← j.fields? ["path", "params"] with
    | [p, a] => some (.including (← expr p) (← expr a))
    | _ => none
  | .macroDef => do
    match ← j.fields? ["name", "parameters", "body"] with
    | [n, p, b] =>
      let name ← required Json.string? n
      let params ← defaulted [] (Json.list? Parameter.ofJson?) p
      some (.macroDef name params (← defaulted [] nodes b))
    | _ => none
  | .evaluate => do
    match ← j.fields? ["expr"] with
    | [e] => some (.evaluate (← expr e))
    | _ => none
  | .returning => do
    match ← j.fields? ["expr"] with
    | [e] => some (.returning (← expr e))
    | _ => none
  | .autoescape => do
    match ← j.fields? ["enabled", "body"] with
    | [e, b] => some (.autoescape (← optional Json.bool? e) (← defaulted [] nodes b))
    | _ => none
  | .continueLoop => (j.fields? []).map fun _ => .continueLoop
  | .breakLoop => (j.fields? []).map fun _ => .breakLoop
  | .cached => do
    match ← j.fields? ["key", "lifetime", "body"] with
    | [k, l, b] => some (.cached (← expr k) (← expr l) (← defaulted [] nodes b))
    | _ => none
  | .unknown => (j.fields? []).map fun _ => .unknown

end Stmt

/-- The place recorded beside a statement's own fields. -/
def Position.ofJson? (j : Json) : Option Position := do
  match ← j.fields? ["file", "line"] with
  | [f, l] => some ⟨← optional Json.string? f, ← optional Json.uint32? l⟩
  | _ => none

namespace Node

/-- A node that nests at most `depth` deep. A node is always an object. -/
def read : Nat → Json → Option Node
  | depth + 1, .obj members => do
    let (tag, rest) ← (Json.obj members).tagged?
    let kind ← Json.variant? Stmt.Kind.all Stmt.Kind.name .unknown tag
    let stmt ← Stmt.readFields (read depth) kind rest
    some (.mk stmt (← Position.ofJson? rest))
  | _, _ => none

/-- The node a JSON value stands for. -/
def ofJson? (j : Json) : Option Node := read j.depth j

end Node

namespace Template

/-- The template a JSON value stands for: an array of nodes. -/
def ofJson? (j : Json) : Option Template := Json.list? Node.ofJson? j

/-- The template of a JSON text. -/
def parse? (text : String) : Option Template := (Json.parse? text).bind ofJson?

end Template
end Stencil
