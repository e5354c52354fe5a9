/-
# Hooks written as patterns

Extensions, callables, resolvers and stems that are given by tables and
patterns instead of functions. Of several rules that match, the first counts.

Key definitions:
* `RuleSet.extension`: an extension from tables of rules.
* `Callable.ofPattern`, `Callable.failing`: generators from a pattern.
* `Compiler.setResolverPattern`, `Compiler.setStemPattern`.
-/
import Stencil.Compiler
import Stencil.Template.Encode
import Stencil.Text.Pattern

namespace Stencil

/-- Which expressions a rule is about. -/
inductive ExprTest where
  | equals (e : Expr)
  /-- All expressions of the kind of that name. -/
  | kind (name : String)

/-- The rule is about the expression. -/
def ExprTest.holds : ExprTest → Expr → Bool
  | .equals e, f => f.same e
  | .kind name, f => f.kind.name == name

/-- Tables of rules: what a rule is about, and the pattern of its code. -/
structure RuleSet where
  expressions : List (ExprTest × String)
  /-- Statements by the name of their kind. -/
  statements : List (String × String)
  /-- Functions by name; a star stands for every name. -/
  functions : List (String × String)
  filters : List (String × String)

namespace RuleSet

/-- The arguments of a call as JSON text. -/
def rawText (raw : List Arg) : String := (Json.arr (Expr.jsonArgs raw)).render

/-- What the placeholders of a callable stand for. -/
def callMeaning (arguments : String) (raw : List Arg) : String → Option String
  | "args" => some arguments
  | "n" => some (toString raw.length)
  | "raw" => some (rawText raw)
  | _ => none

/-- The code of the first rule whose name matches. -/
def named (rules : List (String × String)) (name arguments : String) (raw : List Arg) :
    Option String :=
  (rules.find? fun (n, _) => n == "*" || n == name).map fun (_, code) =>
    Pattern.fill (fun p => if p = "name" then some name else callMeaning arguments raw p) code

/-- What the placeholder of a tree stands for. -/
def treeMeaning (j : Json) (placeholder : String) : Option String :=
  if placeholder = "json" then some j.render else none

/-- The extension that follows the rules. -/
def extension (r : RuleSet) : Extension where
  expression e := (r.expressions.find? fun (test, _) => test.holds e).map fun (_, code) =>
    Pattern.fill (treeMeaning e.json) code
  statement n := (r.statements.find? fun (kind, _) => n.stmt.kind.name == kind).map fun (_, code) =>
    Pattern.fill (treeMeaning n.json) code
  function := named r.functions
  filter := named r.filters

end RuleSet

namespace Callable

/-- A generator that fills in a pattern. -/
def ofPattern (pattern : String) : Callable :=
  .generator fun arguments raw => .ok (Pattern.fill (RuleSet.callMeaning arguments raw) pattern)

/-- A generator that always fails, as if no path were found for `name`. -/
def failing (name : String) : Callable := .generator fun _ _ => .error (.pathResolution name)

end Callable

namespace Compiler

/-- What the placeholders of a resolver stand for. -/
def resolverMeaning (template : String) (s : Settings) (mode : Mode) : String → Option String
  | "template" => some template
  | "extends" => some (if mode = .layout then "true" else "false")
  | "extension" => some s.extension
  | "prefix" => some s.stem
  | "separator" => some s.separator
  | _ => none

/-- Compiled files go where the pattern says; without one, nowhere. -/
def setResolverPattern (c : Compiler) (pattern : Option String) : Compiler :=
  c.setResolver fun template s mode => pattern.map (Pattern.fill (resolverMeaning template s mode))

/-- What the placeholders of a stem stand for. -/
def stemMeaning (path : String) : String → Option String
  | "path" => some path
  | "len" => some (toString path.utf8ByteSize)
  | _ => none

/-- Loop variables start as the pattern says. -/
def setStemPattern (c : Compiler) (pattern : String) : Compiler :=
  c.setStem fun path => Pattern.fill (stemMeaning path) pattern

end Compiler
end Stencil
