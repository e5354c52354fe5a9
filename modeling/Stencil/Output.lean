/-
# Compilation output

A template is compiled as a page, to code, or as a layout, to the block map
that templates extending it are merged into.

Key definitions:
* `Mode`: page or layout.
* `Output`: what a compilation gives.
-/
import Stencil.BlockMap.Basic

namespace Stencil

/-- What a template is compiled for. -/
inductive Mode where
  /-- To be shown. -/
  | page
  /-- To be extended. -/
  | layout
  deriving Repr, DecidableEq

/-- What a compilation gives. -/
inductive Output where
  | code (code : String)
  | blocks (blocks : BlockMap)

namespace Output

/-- The code of a page; a layout has none. -/
def toCode : Output → String
  | .code c => c
  | .blocks _ => ""

/-- The block map of a layout; a page has none. -/
def toBlocks : Output → BlockMap
  | .code _ => .empty
  | .blocks m => m

end Output
end Stencil
