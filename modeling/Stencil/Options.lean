/-
# Options

The settings of a compiler, and setting them by name from loosely typed values.

Key definitions:
* `Options`: the settings, and where compiled files go.
* `Options.set`: set one option, checking the type of its value.
* `Options.ofJson`: options from the members of an object.
-/
import Stencil.Error
import Stencil.Json.Basic
import Stencil.Output

namespace Stencil

/-- Settings that do not depend on where compiled files go. -/
structure Settings where
  /-- Compile on every call, whatever is on disk. -/
  always : Bool
  /-- What the name of a compiled file starts with. -/
  stem : String
  /-- What stands for slashes in the name of a compiled file. -/
  separator : String
  /-- What the name of a compiled file ends with. -/
  extension : String
  /-- Compare times before a compiled file is used again. -/
  stat : Bool
  autoescape : Bool
  /-- Where templates named by other templates are looked for, in order. -/
  viewsDirs : List String
  deriving Repr, DecidableEq

/-- Where compiled files go. -/
inductive CachePath where
  /-- A text the name of the file is appended to. -/
  | root (root : String)
  /-- A function from the template, the settings and the mode. -/
  | resolver (resolve : String → Settings → Mode → Option String)

/-- The options of a compiler. -/
structure Options extends Settings where
  path : Option CachePath

namespace Options

/-- The options of a new compiler. -/
def initial : Options where
  always := false
  stem := ""
  separator := "%%"
  extension := ".php"
  stat := true
  autoescape := false
  viewsDirs := []
  path := none

/-- The value of an option that is true or false. -/
def bool (name : String) : Json → Except CompileError Bool
  | .bool b => .ok b
  | _ => .error (.invalidOption name .bool)

/-- The value of an option that is a text. -/
def string (name : String) : Json → Except CompileError String
  | .str s => .ok s
  | _ => .error (.invalidOption name .string)

/-- The value of an option that is a list of texts. -/
def strings (name : String) : Json → Except CompileError (List String)
  | .arr items => items.mapM fun
    | .str s => .ok s
    | _ => .error (.invalidOption name .strings)
  | _ => .error (.invalidOption name .strings)

/-- Set one option by name. A name that is no option is ignored. -/
def set (o : Options) (name : String) (value : Json) : Except CompileError Options := do
  match name with
  | "always" => return { o with always := ← bool name value }
  | "stat" => return { o with stat := ← bool name value }
  | "autoescape" => return { o with autoescape := ← bool name value }
  | "prefix" => return { o with stem := ← string name value }
  | "separator" => return { o with separator := ← string name value }
  | "extension" => return { o with extension := ← string name value }
  | "path" => return { o with path := some (.root (← string name value)) }
  | "views_dirs" => return { o with viewsDirs := ← strings name value }
  | _ => return o

/-- Options from the members of an object, taken in ascending order of their
names; any other value gives the options of a new compiler. -/
def ofJson : Json → Except CompileError Options
  | .obj members =>
    (members.mergeSort fun a b => decide (a.1 ≤ b.1)).foldlM (fun o (name, v) => o.set name v) initial
  | _ => .ok initial

end Options
end Stencil
