/-
# Compiling

Sources are compiled from memory or through the disk. Through the disk, the
compiled file of a template is used again while it is newer than the template.
A template may name others, which are compiled the same way; how deep such
chains go is bounded by the number of files on the disk.

Key definitions:
* `Compiler.compileSource`, `Compiler.compileString`: from memory.
* `Compiler.compileFile`: a template to a given file.
* `Compiler.compile`: a template through its compiled file.
-/
import Stencil.Artifact.Name
import Stencil.BlockMap.Stored
import Stencil.Emit.Layout

namespace Stencil

/-- What compiling a template through the disk gives. -/
structure Compilation where
  output : Output
  /-- The path of the compiled file. -/
  path : String
  /-- The template was compiled; otherwise its compiled file was used again. -/
  recompiled : Bool

namespace Output

/-- What is written to the compiled file. -/
def stored : Output → String
  | .code c => c
  | .blocks m => m.text

end Output

namespace Compiler

/-- Run an emission on the disk from a fresh state. -/
def emit {α : Type} (c : Compiler) (act : EmitM α) : DiskM α :=
  ExceptT.mk fun disk =>
    let (result, state) := act.run.run (.initial c.options.autoescape disk)
    (result, state.disk)

/-- Compile a source text, given how templates it names are compiled. -/
def compileTree (c : Compiler) (nested : String → Mode → DiskM Output) (text source : String)
    (mode : Mode) : DiskM Output := do
  match c.parse text source with
  | .error e => throw e
  | .ok tree =>
    let env := Emit.Env.outer c source nested
    match mode with
    | .page => return .code (← c.emit (Emit.page env tree))
    | .layout => return .blocks (← c.emit (Emit.layout env tree))

/-- Compile a template to a given file, given how templates it names are compiled.
The file is written only when the template compiles. -/
def compileFileWith (c : Compiler) (nested : String → Mode → DiskM Output)
    (template compiled : String) (mode : Mode) : DiskM Output := do
  if Path.same template compiled then throw (.samePath template)
  match (← get).read template with
  | .error (.lost .missing) => throw (.sourceNotFound template)
  | .error _ => throw (.sourceUnreadable template)
  | .ok text =>
    let output ← c.compileTree nested text template mode
    match (← get).save? compiled (.text output.stored) with
    | some disk =>
      set disk
      return output
    | none => throw (.cacheWrite compiled)

/-- The template was changed at or after the time given, or cannot be seen. -/
def isStale (disk : Disk) (template : String) (compiled : Nat) : Bool :=
  match disk.changed? template with
  | some changed => compiled ≤ changed
  | none => true

/-- The compiled file cannot be used again. -/
def mustCompile (c : Compiler) (disk : Disk) (template compiled : String) : Bool :=
  c.options.always ||
    match disk.changed? compiled with
    | none => true
    | some time => c.options.stat && isStale disk template time

/-- Use a compiled file again. A file for a layout that holds white space only is
a layout without blocks. -/
def load (disk : Disk) (compiled : String) (mode : Mode) : Except CompileError Output :=
  match disk.read compiled with
  | .error _ => .error (.cacheRead compiled)
  | .ok text =>
    match mode with
    | .page => .ok (.code text)
    | .layout =>
      if Text.isBlankText text then .ok (.blocks .empty)
      else
        match BlockMap.parse? text with
        | some m => .ok (.blocks m)
        | none => .error (.invalidCache compiled)

/-- Compile a template through its compiled file, where templates name one another
at most `depth` deep. -/
def compileWithin (c : Compiler) : (depth : Nat) → (template : String) → Mode → DiskM Compilation
  | 0, template, _ => throw (.endlessNesting template)
  | depth + 1, template, mode => do
    let compiled ← match c.compiledPath (← get) template mode with
      | .ok path => pure path
      | .error e => throw e
    if c.mustCompile (← get) template compiled then
      let nested := fun path mode => (·.output) <$> compileWithin c depth path mode
      return ⟨← c.compileFileWith nested template compiled mode, compiled, true⟩
    else
      match load (← get) compiled mode with
      | .ok output => return ⟨output, compiled, false⟩
      | .error e => throw e

/-- How deep templates may name one another. Each template of a chain is a file in
one of the two modes, so a chain more than twice as long as there are files meets
one of them again in the same mode; the rest leaves room for files written on the
way. -/
def nestingLimit (disk : Disk) : Nat := 2 * disk.items.length + 64

/-- Compile a template named by another one. -/
def nested (c : Compiler) (path : String) (mode : Mode) : DiskM Output := do
  return (← c.compileWithin (nestingLimit (← get)) path mode).output

/-- Compile a source text; `source` names it in errors. -/
def compileSource (c : Compiler) (text source : String) (mode : Mode) : DiskM Output :=
  c.compileTree c.nested text source mode

/-- The name in errors of a source that is not a file. -/
def memorySource : String := "eval code"

/-- Compile a source text to code. -/
def compileString (c : Compiler) (text : String) : DiskM String := do
  return (← c.compileSource text memorySource .page).toCode

/-- Compile a template to a given file. -/
def compileFile (c : Compiler) (template compiled : String) (mode : Mode) : DiskM Output :=
  c.compileFileWith c.nested template compiled mode

/-- Compile a template through its compiled file. -/
def compile (c : Compiler) (template : String) (mode : Mode) : DiskM Compilation := do
  c.compileWithin (nestingLimit (← get)) template mode

end Compiler
end Stencil
