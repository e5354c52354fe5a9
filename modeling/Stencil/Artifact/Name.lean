/-
# Names of compiled files

Where the compiled form of a template is kept: next to the template, below a
root under a name made from the template's whole path, or where a resolver
says.

Key definitions:
* `Compiler.flatten`: a whole path as one name.
* `Compiler.compiledPath`: the path of the compiled file.
-/
import Stencil.Compiler
import Stencil.Text.Lower

namespace Stencil
namespace Compiler

/-- Slashes, backslashes and colons of a text replaced. -/
def replaceMarks (separator : String) (s : String) : String :=
  String.ofList (s.toList.flatMap fun c =>
    if c = '/' ∨ c = '\\' ∨ c = ':' then separator.toList else [c])

/-- The whole path of a template as one name in lower case; a template that does
not exist goes by its path as given. -/
def flatten (disk : Disk) (separator template : String) : String :=
  Text.lower (replaceMarks separator ((disk.canonical? template).getD template))

/-- The path of the compiled file of a template below a root. -/
def rootedPath (c : Compiler) (disk : Disk) (root template : String) (mode : Mode) : String :=
  let o := c.options
  let name := if root.isEmpty then template else flatten disk o.separator template
  let mark := match mode with
    | .page => ""
    | .layout => o.separator ++ "e" ++ o.separator
  root ++ o.stem ++ name ++ mark ++ o.extension

/-- The path of the compiled file of a template. -/
def compiledPath (c : Compiler) (disk : Disk) (template : String) (mode : Mode) :
    Except CompileError String :=
  match c.options.path with
  | none => .ok (c.rootedPath disk "" template mode)
  | some (.root root) => .ok (c.rootedPath disk root template mode)
  | some (.resolver resolve) =>
    match resolve template c.options.toSettings mode with
    | none => .error (.pathResolution template)
    | some path => if path.isEmpty then .error (.pathResolution template) else .ok path

end Compiler
end Stencil
