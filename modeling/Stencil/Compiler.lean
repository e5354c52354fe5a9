/-
# Compilers

What a compilation is set up with: options, the reader of template sources,
extensions, and the names the user has registered.

Key definitions:
* `Compiler`, `Compiler.initial`: a compiler and its registries.
* `Compiler.addFunction` and the like: register something.
* `Compiler.stemFor`: what the variables of generated loops start with.
* `Compiler.viewPath`: where a template named by another one is.
-/
import Stencil.Disk.Basic
import Stencil.Extension.Basic
import Stencil.Options
import Stencil.Template.Decode

namespace Stencil

/-- The settings and registries of a compiler. A later registration of a name
stands before an earlier one. -/
structure Compiler where
  options : Options
  /-- The tree of a source text; the second text names the source in errors. -/
  parse : (text source : String) → Except CompileError Template
  extensions : List Extension
  functions : List (String × Callable)
  filters : List (String × Callable)
  services : List String
  /-- Makes the stem of loop variables from the path of a template. -/
  makeStem : Option (String → String)

namespace Compiler

/-- Read a template tree from JSON text. -/
def parseTree (text source : String) : Except CompileError Template :=
  match Template.parse? text with
  | some t => .ok t
  | none => .error (.invalidTree source)

/-- A compiler with nothing registered. -/
def initial : Compiler where
  options := .initial
  parse := parseTree
  extensions := []
  functions := []
  filters := []
  services := []
  makeStem := none

/-- Set one option by name. -/
def setOption (c : Compiler) (name : String) (value : Json) : Except CompileError Compiler := do
  return { c with options := ← c.options.set name value }

/-- Let a function say where compiled files go. -/
def setResolver (c : Compiler) (resolve : String → Settings → Mode → Option String) : Compiler :=
  { c with options := { c.options with path := some (.resolver resolve) } }

/-- Let a function make the stem of loop variables. -/
def setStem (c : Compiler) (make : String → String) : Compiler := { c with makeStem := some make }

/-- Ask an extension after those already there. -/
def addExtension (c : Compiler) (e : Extension) : Compiler :=
  { c with extensions := c.extensions ++ [e] }

/-- Register a function. -/
def addFunction (c : Compiler) (name : String) (f : Callable) : Compiler :=
  { c with functions := (name, f) :: c.functions }

/-- Register a filter. -/
def addFilter (c : Compiler) (name : String) (f : Callable) : Compiler :=
  { c with filters := (name, f) :: c.filters }

/-- Let a variable of this name stand for a service of the view. -/
def addService (c : Compiler) (name : String) : Compiler :=
  { c with services := name :: c.services }

/-- The first answer of the extensions. -/
def handled (c : Compiler) (hook : Extension → Option String) : Option String :=
  firstHandled c.extensions hook

/-- Hash of a text: each byte is added to 33 times the hash so far, modulo 2^64. -/
def hash (s : String) : UInt64 :=
  (s.toList.flatMap String.utf8EncodeChar).foldl (fun h b => h * 33 + b.toUInt64) 5381

/-- What the variables of loops in a template start with. -/
def stemFor (c : Compiler) (path : String) : String :=
  match c.makeStem with
  | some make => make path
  | none => "v" ++ toString (hash path).toNat

/-- Letters, digits and underscores of ASCII, the first not a digit. -/
def isIdentifier (s : String) : Bool :=
  match s.toList with
  | [] => false
  | c :: cs => (c.isAlpha || c == '_') && cs.all fun d => d.isAlphanum || d == '_'

/-- Where a template named by another one is: in the first views directory that
has it, else in the last one, else where its path says. -/
def viewPath (c : Compiler) (disk : Disk) (path : String) : String :=
  let candidates := c.options.viewsDirs.map fun dir => Path.join dir path
  match candidates.find? disk.exists? with
  | some found => found
  | none => candidates.getLast?.getD path

end Compiler
end Stencil
