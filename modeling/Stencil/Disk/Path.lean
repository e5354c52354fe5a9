/-
# Paths

A path is a text: names divided by slashes. It is taken apart in two ways. A
look-up visits every step between slashes, empty ones included. A comparison
looks at components: repeated slashes, inner dots and a slash at the end do not
count, a leading dot does.

Key definitions:
* `Path.steps`: the texts between slashes.
* `Path.components`, `Path.same`: what two spellings of a path share.
* `Path.join`: a path inside a directory.
-/

namespace Stencil
namespace Path

/-- The parts of a text between slashes; the part being read is in reverse. -/
def split (part : List Char) : List Char → List String
  | [] => [String.ofList part.reverse]
  | c :: cs =>
    if c = '/' then String.ofList part.reverse :: split [] cs else split (c :: part) cs

/-- The texts between slashes, in order. -/
def steps (path : String) : List String := split [] path.toList

/-- The path starts at the root. -/
def isAbsolute (path : String) : Bool := path.toList.head? == some '/'

/-- The names that make up a path: a leading dot or slash counts, other dots and
slashes do not. -/
def components (path : String) : List String :=
  let names := (steps path).filter fun s => s != "" && s != "."
  match steps path with
  | "." :: _ => "." :: names
  | _ => if isAbsolute path then "/" :: names else names

/-- Two paths have the same components. -/
def same (p q : String) : Bool := components p == components q

/-- The path `path` as seen from `dir`. An absolute path stays as it is. -/
def join (dir path : String) : String :=
  if isAbsolute path then path
  else if dir.isEmpty || dir.toList.getLast? == some '/' then dir ++ path
  else dir ++ "/" ++ path

end Path
end Stencil
