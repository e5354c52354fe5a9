/-
# Inheritance

A template that extends a layout is merged into the layout's blocks: each entry
is emitted in order, the template's own body for a block it overrides and the
layout's for all others. An override may ask for the body it replaces. That
body is emitted with no block overridden, so it asks for none itself, and
emissions nest no deeper than this.

Key definitions:
* `Emit.superCode`: what an override's call of the parent's block becomes.
* `Emit.merge`: the entries of the layout with their code.
* `Emit.page`, `Emit.layout`: a whole template in either mode.
-/
import Stencil.Emit.Stmt

namespace Stencil
namespace Emit

/-- The code of the body being overridden, emitted in `inner`. Where the call is
the whole of a statement's expression it is that code; inside a larger expression
it is a literal. -/
def superCode (inner : Env) : EmitM String := do
  let s ← get
  match s.currentBlock.bind fun name => s.parent.bind (·.named? name) with
  | none => return "''"
  | some body =>
    let code ← match body with
      | .code code => pure code
      | .nodes ns => outsideBlock (list inner .page ns)
    if (← get).exprLevel == 1 then return code
    else return "'" ++ Text.slashed code ++ "'"

/-- An environment in which no block is overridden. -/
def Env.inner (compiler : Compiler) (source : String) (nested : String → Mode → DiskM Output) :
    Env := ⟨compiler, source, pure "''", nested⟩

/-- The environment of a template. -/
def Env.outer (compiler : Compiler) (source : String) (nested : String → Mode → DiskM Output) :
    Env := ⟨compiler, source, superCode (.inner compiler source nested), nested⟩

/-- The code of a body. -/
def bodyCode (env : Env) : BlockBody → EmitM String
  | .code code => pure code
  | .nodes ns => list env .page ns

/-- The block being overridden and the body to emit for an entry of the layout,
given the template's own blocks. -/
def override (own : BlockMap) (key : BlockKey) (inherited : BlockBody) :
    Option String × BlockBody :=
  match key with
  | .position _ => (none, inherited)
  | .name n =>
    match own.named? n with
    | some body => (some n, body)
    | none => (none, inherited)

/-- The code of each entry of the layout, in order. -/
def mergeEntries (env : Env) (own : BlockMap) :
    List (BlockKey × BlockBody) → EmitM (List (BlockKey × String))
  | [] => pure []
  | (key, inherited) :: rest => do
    let (block, body) := override own key inherited
    modify fun s => { s with currentBlock := block }
    let code ← bodyCode env body
    return (key, code) :: (← mergeEntries env own rest)

/-- The entries of the layout with their code. Blocks inside a body are emitted
where they stand. -/
def merge (env : Env) : EmitM (List (BlockKey × String)) := do
  let s ← get
  within (fun s => { s with blocks := .empty, extended := false })
    (fun _ s => { s with currentBlock := none, extended := true })
    (mergeEntries env s.blocks (s.parent.getD .empty).entries)

/-- Merged entries as a block map; segments are numbered anew. -/
def blocksOf (entries : List (BlockKey × String)) : BlockMap :=
  entries.foldl (fun m (key, code) =>
    match key with
    | .name n => m.define n (.code code)
    | .position _ => m.append code) .empty

/-- The code of a template. -/
def page (env : Env) (t : Template) : EmitM String := do
  let code ← list env .page t
  if (← get).extended then return String.join ((← merge env).map (·.2))
  else return code

/-- The blocks of a template that others may extend. -/
def layout (env : Env) (t : Template) : EmitM BlockMap := do
  let _ ← list env .layout t
  if (← get).extended then return blocksOf (← merge env)
  else return (← get).blocks

end Emit
end Stencil
