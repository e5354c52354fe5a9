/-
# Extensions and callables

Ways to change what a compiler emits. An extension is asked before anything
built in and may answer with code; an empty answer is no answer. A callable is
a function or filter of the user's own.

Key definitions:
* `Extension`: the four questions an extension is asked.
* `firstHandled`: the answer of the first extension that has one.
* `Callable`: a named function, or a generator of code.
-/
import Stencil.Error

namespace Stencil

/-- Hooks asked before built-in handling. `arguments` is compiled code, `raw` the
arguments it comes from. -/
structure Extension where
  expression : Expr → Option String
  function : (name arguments : String) → (raw : List Arg) → Option String
  filter : (name arguments : String) → (raw : List Arg) → Option String
  statement : Node → Option String

/-- An extension that handles nothing. -/
def Extension.silent : Extension := ⟨fun _ => none, fun _ _ _ => none, fun _ _ _ => none, fun _ => none⟩

/-- The first answer that is not empty. -/
def firstHandled (extensions : List Extension) (hook : Extension → Option String) : Option String :=
  extensions.findSome? fun e => (hook e).filter (· != "")

/-- A function or filter of the user's own. -/
inductive Callable where
  /-- Calls the function of that name. -/
  | name (name : String)
  /-- Makes code from the compiled arguments and the arguments they come from. -/
  | generator (make : String → List Arg → Except CompileError String)

/-- The code of a call. -/
def Callable.expand (c : Callable) (arguments : String) (raw : List Arg) :
    Except CompileError String :=
  match c with
  | .name n => .ok (n ++ "(" ++ arguments ++ ")")
  | .generator make => make arguments raw

end Stencil
