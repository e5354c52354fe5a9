/-
# Emitting statements

The code of statement lists. In a page a block is emitted where it stands. In a
layout, and in a template that extends one, blocks are registered instead, and
the code between them is appended as segments.

Key definitions:
* `Emit.stmt`: the code of a statement on its own.
* `Emit.nodes`: statements one after another, registering blocks if need be.
* `Emit.list`: a statement list with its counters and its last segment.
-/
import Stencil.Emit.Expr
import Stencil.Text.Blanks

namespace Stencil

/-- The statement names a template to extend. -/
def Stmt.isExtending : Stmt → Bool
  | .extending _ => true
  | _ => false

/-- The node opens the branch for nothing to loop over. -/
def Node.isForElse : Node → Bool
  | .mk .forElse _ => true
  | _ => false

namespace Emit

/-! ### Statements without a body -/

/-- Print the value of an expression. A call of the parent's block is code
already. -/
def echo (env : Env) (e : Option Expr) : EmitM String := do
  let e ← required env .expr e
  let code ← expr env e
  if e.isSuper then return code
  else if (← get).autoescape then return Code.printEscaped code
  else return Code.print code

/-- Assignments, each value before its target. -/
def assignments (env : Env) : List Assignment → EmitM String
  | [] => pure ""
  | a :: rest => do
    let value ← expr env (← required env .value a.value)
    let target ← expr env a.target
    let code := " " ++ Code.between target a.op.sign value ++ ";"
    return code ++ (← assignments env rest)

/-- A `set` statement has at least one assignment. -/
def assign (env : Env) (as : List Assignment) : EmitM String := do
  if as.isEmpty then fail env (.corruptStatement .assignments)
  else return "<?php" ++ (← assignments env as) ++ " ?>"

/-- Compile the template that is extended and keep its blocks. The path has to be
a literal. -/
def extendView (env : Env) : Option Expr → EmitM Unit
  | some (.str path) => do
    let view := env.compiler.viewPath (← get).disk path
    let output ← onDisk (env.nested view .layout)
    modify fun s => { s with extended := true, parent := some output.toBlocks }
  | _ => fail env (.corruptStatement .path)

/-- Include a template. One that is named by a literal and gets no parameters is
compiled and its code taken over; others are left to the view. -/
def includeView (env : Env) (path params : Option Expr) : EmitM String := do
  match ← required env .path path, params with
  | .str path, none =>
    let view := env.compiler.viewPath (← get).disk path
    return (← onDisk (env.nested view .page)).toCode
  | path, none =>
    return Code.sect (Code.apply "$this->partial" (← expr env path) ++ ";")
  | path, some params =>
    let path ← expr env path
    let params ← expr env params
    return Code.sect (Code.apply "$this->partial" (Code.commas [path, params]) ++ ";")

/-- Close the open loop and open its branch for nothing to loop over. -/
def forElse : EmitM String := do
  let s ← get
  match s.branches.lookup s.loopLevel with
  | some b => return Code.Loop.branch b.stem b.guarded (s.recorded.contains s.loopLevel)
  | none => return ""

/-- The code that binds each parameter of a macro. -/
def parameters (env : Env) (macroName : String) : Nat → List Parameter → EmitM (List String)
  | _, [] => pure []
  | i, p :: rest => do
    let otherwise ← match p.fallback with
      | some e => Code.Macro.fallback p.name <$> expr env e
      | none => pure (Code.Macro.refuse macroName p.name)
    let code := Code.Macro.parameter i p.name otherwise
    return code :: (← parameters env macroName (i + 1) rest)

/-- Register a macro name, which may not be taken. -/
def defineMacro (env : Env) (name : String) : EmitM Unit := do
  if (← get).macros.contains name then fail env (.duplicateMacro name)
  else modify fun s => { s with macros := name :: s.macros }

/-! ### Registering blocks -/

/-- Push a segment of code, unless it is empty. -/
def segment (code : String) : EmitM Unit :=
  if code = "" then pure () else modify fun s => { s with blocks := s.blocks.append code }

/-- Register a block. -/
def register (name : String) (body : List Node) : EmitM Unit :=
  modify fun s => { s with blocks := s.blocks.define name (.nodes body) }

/-- The code of a statement after `code`, where `emit` emits the statement. A block
is registered instead if blocks are, and starts a new segment. -/
def place (registering : Bool) (code : String) (s : Stmt) (emit : EmitM String) :
    EmitM (String × Bool) :=
  match s, registering with
  | .block name body, true => do
    segment code
    register name body
    return ("", true)
  | s, registering => do
    let more ← emit
    return (code ++ more, registering || s.isExtending)

/-- A node after `code`: extensions are asked about it before it is placed. -/
def step (env : Env) (n : Node) (registering : Bool) (code : String) (emit : EmitM String) :
    EmitM (String × Bool) :=
  inStmt n.pos <|
    match env.compiler.handled (·.statement n) with
    | some handled => pure (code ++ handled, registering)
    | none => place registering code n.stmt emit

/-- A statement list. `emit` is told whether blocks are registered, and gives the
code left at the end and whether blocks are registered by then. What is left in
an outermost list is its last segment. -/
def sequence (mode : Mode) (isEmpty : Bool) (emit : Bool → EmitM (String × Bool)) :
    EmitM String := do
  if isEmpty then return ""
  else
    let registering := (← get).extended || mode == .layout
    let (code, registering) ← inList registering (emit registering)
    if registering && (← get).blockLevel == 0 then segment code
    return code

/-! ### Loops -/

/-- A loop with a branch for nothing to loop over is noted for it. -/
def noteBranch (depth : Nat) (branch : Branch) (branched : Bool) : EmitM Unit :=
  if branched then modify fun s => { s with branches := (depth, branch) :: s.branches } else pure ()

/-- Whether the loop is recorded, which is then forgotten. -/
def takeRecorded (depth : Nat) : EmitM Bool := do
  let recorded := (← get).recorded.contains depth
  modify (·.clearLoop depth)
  return recorded

/-- What a loop does within its own level, given what emits its body. -/
def turn (env : Env) (target : String) (key : Option String) (iterable : Expr)
    (guard : Option Expr) (branched : Bool) (body : EmitM String) : EmitM String := do
  let depth := (← get).loopLevel
  let stem := (← loopStem env) ++ toString depth
  let source ← expr env iterable
  modify (·.clearLoop depth)
  noteBranch depth ⟨stem, guard.isSome⟩ branched
  let guard ← expr? env guard
  let body ← body
  let recorded ← takeRecorded depth
  return Code.Loop.code ⟨stem, source, target, key, guard, body, recorded, branched⟩

/-- A loop, given what emits its body. -/
def loop (env : Env) (target : String) (key : Option String) (iterable : Expr)
    (guard : Option Expr) (branched : Bool) (body : EmitM String) : EmitM String :=
  inLoop (turn env target key iterable guard branched body)

/-! ### Statements -/

mutual

/-- The code of a statement. A block is emitted in place, and a template to extend
is compiled. -/
def stmt (env : Env) (mode : Mode) : Stmt → EmitM String
  | .text value => pure value
  | .echo e => echo env e
  | .ifThen condition body elseBody => do
    let condition ← expr env (← required env .condition condition)
    let body ← sequence mode body.isEmpty fun r => nodes env mode body r ""
    let other ← elseCode env mode elseBody
    return Code.ifOpen condition ++ body ++ other ++ Code.close
  | .elseIf condition => do
    return Code.elseIf (← expr env (← required env .condition condition))
  | .switchOn subject cases => do
    let subject ← expr env (← required env .expr subject)
    let cases ← sequence mode cases.isEmpty fun r => nodes env mode cases r ""
    return Code.sect ("switch (" ++ subject ++ "):") ++ Text.tidy cases ++ Code.sect "endswitch"
  | .caseOf value => do
    return Code.sect ("case " ++ (← expr env (← required env .expr value)) ++ ":")
  | .caseDefault => pure (Code.sect "default:")
  | .forIn target key iterable guard body => do
    let iterable ← required env .iterable iterable
    loop env target key iterable guard (body.any Node.isForElse)
      (sequence mode body.isEmpty fun r => nodes env mode body r "")
  | .forElse => forElse
  | .assign as => assign env as
  | .block _ body => sequence mode body.isEmpty fun r => nodes env mode body r ""
  | .extending path => do
    extendView env path
    return ""
  | .including path params => includeView env path params
  | .macroDef name params body => do
    defineMacro env name
    let params ← parameters env name 0 params
    let body ← sequence mode body.isEmpty fun r => nodes env mode body r ""
    return Code.Macro.code name params body
  | .evaluate e => do
    return Code.sect ((← expr env (← required env .expr e)) ++ ";")
  | .returning e => do
    return Code.sect ("return " ++ (← expr env (← required env .expr e)) ++ ";")
  | .autoescape enabled body => do
    let enabled ← required env .enabled enabled
    inAutoescape enabled (sequence mode body.isEmpty fun r => nodes env mode body r "")
  | .continueLoop => pure (Code.sect "continue;")
  | .breakLoop => pure (Code.sect "break;")
  | .cached key lifetime body => do
    let key ← expr env (← required env .key key)
    let lifetime ← expr? env lifetime
    let body ← sequence mode body.isEmpty fun r => nodes env mode body r ""
    return Code.cached key lifetime body
  | .unknown => fail env .unknownStatement

/-- The last branch of a conditional, if there is one. -/
def elseCode (env : Env) (mode : Mode) : Option (List Node) → EmitM String
  | none => pure ""
  | some body => do
    let code ← sequence mode body.isEmpty fun r => nodes env mode body r ""
    return Code.elseOpen ++ code

/-- Statements one after another. `registering` says whether blocks are
registered, and `code` is what has been emitted since the last one. -/
def nodes (env : Env) (mode : Mode) : List Node → Bool → String → EmitM (String × Bool)
  | [], registering, code => pure (code, registering)
  | .mk s pos :: rest, registering, code => do
    let (code, registering) ← step env (.mk s pos) registering code (stmt env mode s)
    nodes env mode rest registering code

end

/-- The code of a statement list. -/
def list (env : Env) (mode : Mode) (ns : List Node) : EmitM String :=
  sequence mode ns.isEmpty fun r => nodes env mode ns r ""

end Emit
end Stencil
