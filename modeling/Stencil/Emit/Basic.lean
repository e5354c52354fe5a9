/-
# The state of an emission

Emitting the code of a template keeps counters of how deep it is nested, what
it has registered so far, and the disk, since templates named by other
templates are compiled on the way. The state outlives a failure: what nested
compilations have written stays written.

Key definitions:
* `Emit.State`: the state.
* `EmitM`: an emission, which may fail and keeps its state when it does.
* `Emit.within`: run an emission in a changed state and change it back.
* `Emit.Env`: what does not change during an emission.
-/
import Stencil.Compiler

namespace Stencil
namespace Emit

/-- What a branch for nothing to loop over has to know of its loop. -/
structure Branch where
  stem : String
  /-- The body of the loop is inside a guard. -/
  guarded : Bool
  deriving Repr, DecidableEq

/-- The state of one emission. -/
structure State where
  autoescape : Bool
  /-- How many statement lists are open. -/
  level : Nat
  /-- How many statement lists are open whose blocks are registered. -/
  blockLevel : Nat
  /-- How many loops are open. -/
  loopLevel : Nat
  /-- How many expressions are open. -/
  exprLevel : Nat
  /-- The blocks and segments registered so far. -/
  blocks : BlockMap
  /-- The block whose override is being emitted. -/
  currentBlock : Option String
  /-- The template extends another one. -/
  extended : Bool
  /-- The blocks of the template that is extended. -/
  parent : Option BlockMap
  /-- The macros defined so far. -/
  macros : List String
  /-- The depths of open loops whose record has been used. -/
  recorded : List Nat
  /-- The open loops that have a branch for nothing to loop over, by depth. -/
  branches : List (Nat × Branch)
  /-- What loop variables start with, once it is known. -/
  stem : Option String
  /-- The place of the statement being emitted. -/
  pos : Position
  disk : Disk

namespace State

/-- The state before anything is emitted. -/
def initial (autoescape : Bool) (disk : Disk) : State where
  autoescape := autoescape
  level := 0
  blockLevel := 0
  loopLevel := 0
  exprLevel := 0
  blocks := .empty
  currentBlock := none
  extended := false
  parent := none
  macros := []
  recorded := []
  branches := []
  stem := none
  pos := .unknown
  disk := disk

/-- All counters are at rest. -/
def Balanced (s : State) : Prop :=
  s.level = 0 ∧ s.blockLevel = 0 ∧ s.loopLevel = 0 ∧ s.exprLevel = 0

/-- Forget what is known of the loop at a depth. -/
def clearLoop (s : State) (depth : Nat) : State :=
  { s with
    recorded := s.recorded.filter (· != depth)
    branches := s.branches.filter (·.1 != depth) }

end State
end Emit

/-- A computation on the disk that may fail; the disk is kept when it does. -/
abbrev DiskM := ExceptT CompileError (StateM Disk)

/-- An emission that may fail; its state is kept when it does. -/
abbrev EmitM := ExceptT CompileError (StateM Emit.State)

namespace Emit

/-- Run `act` in the state `enter` makes; `leave` is given the state before and
the state after, whether or not `act` fails. -/
def within {α : Type} (enter : State → State) (leave : State → State → State) (act : EmitM α) :
    EmitM α :=
  ExceptT.mk fun s =>
    let (result, after) := act.run.run (enter s)
    (result, leave s after)

/-- Run a computation on the disk of the state. -/
def onDisk {α : Type} (act : DiskM α) : EmitM α :=
  ExceptT.mk fun s =>
    let (result, disk) := act.run.run s.disk
    (result, { s with disk := disk })

/-- Fail with the error of a computation that has no state. -/
def ofExcept {α : Type} : Except CompileError α → EmitM α
  | .ok a => pure a
  | .error e => throw e

/-- What does not change during an emission. -/
structure Env where
  compiler : Compiler
  /-- The name of the source in errors. -/
  source : String
  /-- What a call of the parent's block is replaced by. -/
  superBlock : EmitM String
  /-- Compile a template named by this one. -/
  nested : String → Mode → DiskM Output

/-- Fail at the statement being emitted. -/
def fail {α : Type} (env : Env) (cause : Location → CompileError) : EmitM α := do
  throw (cause (.of (← get).pos env.source))

/-- A part the statement being emitted cannot do without. -/
def required {α : Type} (env : Env) (part : Stmt.Part) : Option α → EmitM α
  | some a => pure a
  | none => fail env (.corruptStatement part)

/-- One more expression is open during `act`. -/
def inExpr {α : Type} (act : EmitM α) : EmitM α :=
  within (fun s => { s with exprLevel := s.exprLevel + 1 })
    (fun _ s => { s with exprLevel := s.exprLevel - 1 }) act

/-- One more loop is open during `act`. -/
def inLoop {α : Type} (act : EmitM α) : EmitM α :=
  within (fun s => { s with loopLevel := s.loopLevel + 1 })
    (fun _ s => { s with loopLevel := s.loopLevel - 1 }) act

/-- One more statement list is open during `act`; `counted` says whether its
blocks are registered. -/
def inList {α : Type} (counted : Bool) (act : EmitM α) : EmitM α :=
  within
    (fun s => { s with level := s.level + 1, blockLevel := s.blockLevel + counted.toNat })
    (fun _ s => { s with level := s.level - 1, blockLevel := s.blockLevel - counted.toNat })
    act

/-- The statement at `pos` is emitted by `act`. -/
def inStmt {α : Type} (pos : Position) (act : EmitM α) : EmitM α :=
  within (fun s => { s with pos := pos }) (fun before s => { s with pos := before.pos }) act

/-- Escaping is switched on or off during `act`. -/
def inAutoescape {α : Type} (enabled : Bool) (act : EmitM α) : EmitM α :=
  within (fun s => { s with autoescape := enabled })
    (fun before s => { s with autoescape := before.autoescape }) act

/-- No block is overridden during `act`. -/
def outsideBlock {α : Type} (act : EmitM α) : EmitM α :=
  within (fun s => { s with currentBlock := none })
    (fun before s => { s with currentBlock := before.currentBlock }) act

/-- What loop variables start with; it has to be an identifier. -/
def loopStem (env : Env) : EmitM String := do
  match (← get).stem with
  | some stem => return stem
  | none =>
    let stem := env.compiler.stemFor env.source
    if Compiler.isIdentifier stem then
      modify fun s => { s with stem := some stem }
      return stem
    else throw .invalidStem

/-- The code of a variable. Inside a loop the name `loop` is the loop's record,
and a name that is registered is a service of the view. -/
def identifier (env : Env) (name : String) : EmitM String := do
  let depth := (← get).loopLevel
  if name = "loop" ∧ 0 < depth then
    modify fun s => { s with recorded := depth :: s.recorded }
    return "$" ++ (← loopStem env) ++ toString depth ++ "loop"
  else if env.compiler.services.contains name then return "$this->" ++ name
  else return "$" ++ name

end Emit
end Stencil
