/-
# Options and callables for inspection

Options and callables as they are shown to someone inspecting them. Functions
cannot be shown and are only named.

Key definitions:
* `Options.shown`, `Callable.shown`.
-/
import Stencil.Extension.Basic
import Stencil.Options
import Stencil.Text.Escaped

namespace Stencil

/-- A callable for inspection. -/
def Callable.shown : Callable → String
  | .name n => "Name(" ++ Text.escaped n ++ ")"
  | .generator _ => "Generator(..)"

/-- Where compiled files go, for inspection. -/
def CachePath.shown : Option CachePath → String
  | none => "None"
  | some (.root text) => "Some(Root(" ++ Text.escaped text ++ "))"
  | some (.resolver _) => "Some(Resolver(..))"

/-- Options for inspection. -/
def Options.shown (o : Options) : String :=
  "CompilerOptions \x7b always: " ++ toString o.always ++ ", prefix: " ++ Text.escaped o.stem ++
    ", path: " ++ CachePath.shown o.path ++ ", separator: " ++ Text.escaped o.separator ++
    ", extension: " ++ Text.escaped o.extension ++ ", stat: " ++ toString o.stat ++
    ", autoescape: " ++ toString o.autoescape ++ ", views_dirs: [" ++
    ", ".intercalate (o.viewsDirs.map Text.escaped) ++ "] \x7d"

end Stencil
