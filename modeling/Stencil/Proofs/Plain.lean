/-
# Plain code

Without extensions and without other templates, the code of a template depends
on little: the registered names, the stem of loop variables, and for each
statement how deep in loops it stands, whether it is escaped, and whether the
record of its loop has been used before. This module says what the code is as
a function of these, with no state and no errors. That emissions give this
code is shown in `Stencil.Proofs.Emitted`.

Key definitions:
* `Plain.Site`, `Plain.Spot`: what the code of a template and of a statement depends on.
* `Plain.expr?`, `Plain.stmt?`, `Plain.nodes?`: the code, if there is any.
* `Expr.usesLoop`, `Stmt.usesLoop`: the record of the loop is used.
-/
import Stencil.Proofs.Uses

namespace Stencil

/-! ### Uses of the record of a loop -/

/-- The record of a loop is a variable. -/
def Expr.isLoop : Expr → Bool
  | .var name => name == "loop"
  | _ => false

/-- The record of the loop is used where the expression is emitted. -/
def Expr.usesLoop (e : Expr) : Bool := e.emitted.any isLoop

/-- The record of the loop is used in one of the arguments. -/
def Expr.usesLoopArgs (as : List Arg) : Bool := (emittedArgs as).any isLoop

/-- The record of the loop is used in the arguments of a call. -/
def Expr.usesLoopOperands (e : Expr) : Bool := e.emittedOperands.any isLoop

/-- The record of the loop is used in the expression, if there is one. -/
def Expr.usesLoopOption : Option Expr → Bool
  | none => false
  | some e => e.usesLoop

/-- The record of the loop is used in the first argument of a call. -/
def Expr.usesLoopFirst : Expr → Bool
  | .call _ (⟨e, _⟩ :: _) => e.usesLoop
  | _ => false

theorem Expr.usesLoop_var (name : String) : (Expr.var name).usesLoop = (name == "loop") :=
  Bool.or_false _

theorem Expr.any_emittedOption (e : Option Expr) :
    (emittedOption e).any isLoop = usesLoopOption e := by
  cases e <;> rfl

theorem Expr.usesLoopOperands_of_first {e : Expr} (h : e.usesLoopFirst) : e.usesLoopOperands := by
  unfold usesLoopFirst at h
  split at h
  · rw [usesLoop] at h
    simp [usesLoopOperands, emittedOperands, emittedArgs, h]
  · cases h

/-- The record of the loop is used in an assignment. -/
def Assignment.usesLoop (a : Assignment) : Bool :=
  Expr.usesLoopOption a.value || a.target.usesLoop

mutual

/-- The record of the loop around the statement is used in it. A loop inside has
its own record. -/
def Stmt.usesLoop : Stmt → Bool
  | .echo e => Expr.usesLoopOption e
  | .ifThen c b e => Expr.usesLoopOption c || Node.usesLoop b || Node.usesLoopOption e
  | .elseIf c => Expr.usesLoopOption c
  | .switchOn e b => Expr.usesLoopOption e || Node.usesLoop b
  | .caseOf e => Expr.usesLoopOption e
  | .assign as => as.any Assignment.usesLoop
  | .block _ b => Node.usesLoop b
  | .including e params => Expr.usesLoopOption e || Expr.usesLoopOption params
  | .macroDef _ ps b => ps.any (Expr.usesLoopOption ·.fallback) || Node.usesLoop b
  | .evaluate e => Expr.usesLoopOption e
  | .returning e => Expr.usesLoopOption e
  | .autoescape _ b => Node.usesLoop b
  | .cached k l b => Expr.usesLoopOption k || Expr.usesLoopOption l || Node.usesLoop b
  | _ => false

/-- The record of the loop around the nodes is used in one of them. -/
def Node.usesLoop : List Node → Bool
  | [] => false
  | .mk s _ :: rest => s.usesLoop || Node.usesLoop rest

/-- The record of the loop is used in the nodes, if there are any. -/
def Node.usesLoopOption : Option (List Node) → Bool
  | none => false
  | some ns => Node.usesLoop ns

end

namespace Plain

/-- What the code of a template depends on. -/
structure Site where
  functions : List (String × Callable)
  filters : List (String × Callable)
  services : List String
  /-- What loop variables start with, if that is an identifier. -/
  stem? : Option String

/-- What the code of a statement depends on. -/
structure Spot where
  autoescape : Bool
  /-- How many loops are open. -/
  depth : Nat
  /-- The innermost loop, if it has a branch for nothing to loop over. -/
  branch : Option Emit.Branch
  /-- The record of the innermost loop has been used. -/
  used : Bool

/-- The spot after something that may use the record of the loop. -/
def Spot.using (k : Spot) (uses : Bool) : Spot :=
  { k with used := k.used || (decide (0 < k.depth) && uses) }

@[simp] theorem Spot.using_false (k : Spot) : k.using false = k := by simp [Spot.using]

@[simp] theorem Spot.using_using (k : Spot) (u v : Bool) :
    (k.using u).using v = k.using (u || v) := by
  unfold Spot.using
  dsimp only
  rw [Bool.and_or_distrib_left, Bool.or_assoc]

@[simp] theorem Spot.using_depth (k : Spot) (u : Bool) : (k.using u).depth = k.depth := rfl

@[simp] theorem Spot.using_autoescape (k : Spot) (u : Bool) :
    (k.using u).autoescape = k.autoescape := rfl

@[simp] theorem Spot.using_branch (k : Spot) (u : Bool) : (k.using u).branch = k.branch := rfl

variable (S : Site)

/-! ### Expressions -/

/-- The code of a variable. -/
def identifier? (depth : Nat) (name : String) : Option String :=
  if name = "loop" ∧ 0 < depth then
    S.stem?.map fun stem => "$" ++ stem ++ toString depth ++ "loop"
  else if S.services.contains name then some ("$this->" ++ name)
  else some ("$" ++ name)

/-- A call by name, given the code of its arguments. -/
def callNamed? (name arguments : String) (raw : List Arg) : Option String :=
  match S.functions.lookup name with
  | some f => (f.expand arguments raw).toOption
  | none => some (if name = "super" then "''" else Code.call name arguments)

/-- A call, given the code of its arguments, where `code` is that of a callee that is
no name. -/
def callCode? (callee : Expr) (arguments : String) (raw : List Arg) (code : Option String) :
    Option String :=
  match callee with
  | .var name => callNamed? S name arguments raw
  | _ => code.map (Code.apply · arguments)

/-- The name of an attribute. -/
def attrCode? (attr : Expr) (code : Option String) : Option String :=
  match attr with
  | .var name => some name
  | _ => code

/-- A filter by name on the operand `l`, where `glue` is the code of the first
argument. -/
def filterNamed? (name l arguments : String) (raw : List Arg) (glue : Option String) :
    Option String :=
  match S.filters.lookup name with
  | some f => (f.expand arguments raw).toOption
  | none =>
    if name = "join" then glue.map fun g => Code.apply "join" (Code.commas [g, l])
    else Code.filter? name l arguments

/-- A filter on the operand `l`, where `operands` is the code of its arguments and
`glue` that of the first of them. -/
def filterCode? (filter : Expr) (l : String) (operands : Option (List String))
    (glue : Option String) : Option String :=
  match filter with
  | .var name => filterNamed? S name l l (Emit.filterArgs name l []) glue
  | .call (.var name) raw => do
    let rest ← operands
    let given := if name = "default" then (if raw.isEmpty then l else Code.commas rest)
      else Code.commas (l :: rest)
    filterNamed? S name l given (Emit.filterArgs name l raw) glue
  | _ => none

/-- A test on the operand `l`, where `operands` is the code of its arguments and
`whole` the code of the test as an expression. -/
def testCode? (test : Expr) (l : String) (operands : Option (List String)) (whole : Option String) :
    Option String :=
  let equal := whole.map fun code => Code.between l "==" code
  match test with
  | .var name =>
    match Code.test? name l with
    | some code => some code
    | none => equal
  | .call (.var name) _ =>
    if name ∈ Code.operandTests then
      operands.map fun given => Code.operandTest name l (Code.commas given)
    else equal
  | _ => equal

mutual

/-- The code of an expression. -/
def expr? (depth : Nat) : Expr → Option String
  | .integer v => some (toString v.toInt)
  | .double v => some (Emit.numeral.render v)
  | .str v => some (Text.quote v)
  | .bool v => some (if v then "true" else "false")
  | .null => some "null"
  | .var name => identifier? S depth name
  | .property object attr => do
    let o ← expr? depth object
    let a ← attrCode? attr (expr? depth attr)
    return o ++ "->" ++ a
  | .index object index => do
    let o ← expr? depth object
    let i ← expr? depth index
    return o ++ "[" ++ i ++ "]"
  | .binary op left right => do
    let l ← expr? depth left
    let r ← expr? depth right
    return op.code l r
  | .unary op operand => do
    let code ← expr? depth operand
    return op.code code
  | .call callee arguments => do
    let given ← args? depth arguments
    callCode? S callee (Code.commas given) arguments (expr? depth callee)
  | .filter left filter => do
    let l ← expr? depth left
    filterCode? S filter l (operands? depth filter) (glue? depth filter)
  | .is left test => do
    let l ← expr? depth left
    testCode? test l (operands? depth test) (expr? depth test)
  | .isNot left test => do
    let l ← expr? depth left
    let code ← testCode? test l (operands? depth test) (expr? depth test)
    return "!(" ++ code ++ ")"
  | .ternary condition yes no => do
    let c ← expr? depth condition
    let y ← expr? depth yes
    let n ← expr? depth no
    return "(" ++ c ++ " ? " ++ y ++ " : " ++ n ++ ")"
  | .slice object start stop => do
    let o ← expr? depth object
    let s ← exprOrNull? depth start
    let e ← exprOrNull? depth stop
    return Code.apply "$this->slice" (Code.commas [o, s, e])
  | .array items => do
    let codes ← args? depth items
    return "[" ++ Code.commas codes ++ "]"
  | .enclosed inner => do
    let code ← expr? depth inner
    return "(" ++ code ++ ")"
  | .resolved code => some code
  | .unknown => none

/-- The code of each argument. -/
def args? (depth : Nat) : List Arg → Option (List String)
  | [] => some []
  | ⟨e, name⟩ :: rest => do
    let code ← expr? depth e
    let codes ← args? depth rest
    return Emit.keyword name code :: codes

/-- The code of each argument of a call; other expressions have none. -/
def operands? (depth : Nat) : Expr → Option (List String)
  | .call _ arguments => args? depth arguments
  | _ => some []

/-- The code of the first argument of a call, else of an empty text. -/
def glue? (depth : Nat) : Expr → Option String
  | .call _ (⟨e, _⟩ :: _) => expr? depth e
  | _ => some "''"

/-- The code of an expression that may be missing. -/
def exprOrNull? (depth : Nat) : Option Expr → Option String
  | none => some "null"
  | some e => expr? depth e

end

/-! ### Statements -/

/-- Print the value of an expression. -/
def echo? (k : Spot) (e : Expr) : Option String :=
  (expr? S k.depth e).map fun code =>
    if e.isSuper then code else if k.autoescape then Code.printEscaped code else Code.print code

/-- The code of an optional expression, if there is one. -/
def optional? (depth : Nat) : Option Expr → Option (Option String)
  | none => some none
  | some e => (expr? S depth e).map some

/-- Assignments, each value before its target. -/
def assignments? (depth : Nat) : List Assignment → Option String
  | [] => some ""
  | a :: rest => do
    let value ← expr? S depth (← a.value)
    let target ← expr? S depth a.target
    let code := " " ++ Code.between target a.op.sign value ++ ";"
    return code ++ (← assignments? depth rest)

/-- A template that is left to the view to include. -/
def include? (depth : Nat) (path params : Option Expr) : Option String := do
  match ← path, params with
  | .str _, none => none
  | path, none => return Code.sect (Code.apply "$this->partial" (← expr? S depth path) ++ ";")
  | path, some params =>
    let path ← expr? S depth path
    let params ← expr? S depth params
    return Code.sect (Code.apply "$this->partial" (Code.commas [path, params]) ++ ";")

/-- The code that binds each parameter of a macro. -/
def parameters? (depth : Nat) (macroName : String) : Nat → List Parameter → Option (List String)
  | _, [] => some []
  | i, p :: rest => do
    let otherwise ← match p.fallback with
      | some e => (expr? S depth e).map (Code.Macro.fallback p.name)
      | none => some (Code.Macro.refuse macroName p.name)
    let code := Code.Macro.parameter i p.name otherwise
    return code :: (← parameters? depth macroName (i + 1) rest)

/-- Inside a loop: its depth, and what a branch for nothing to loop over has to
know of it. -/
def Spot.enter (k : Spot) (stem : String) (guarded branched : Bool) : Spot where
  autoescape := k.autoescape
  depth := k.depth + 1
  branch := if branched then some ⟨stem, guarded⟩ else none
  used := false

mutual

/-- The code of a statement. -/
def stmt? (k : Spot) : Stmt → Option String
  | .text value => some value
  | .echo e => do echo? S k (← e)
  | .ifThen condition body elseBody => do
    let cond ← expr? S k.depth (← condition)
    let code ← nodes? (k.using (Expr.usesLoopOption condition)) body
    let other ← elseCode? (k.using (Expr.usesLoopOption condition || Node.usesLoop body)) elseBody
    return Code.ifOpen cond ++ code ++ other ++ Code.close
  | .elseIf condition => do return Code.elseIf (← expr? S k.depth (← condition))
  | .switchOn subject cases => do
    let code ← expr? S k.depth (← subject)
    let body ← nodes? (k.using (Expr.usesLoopOption subject)) cases
    return Code.sect ("switch (" ++ code ++ "):") ++ Text.tidy body ++ Code.sect "endswitch"
  | .caseOf value => do return Code.sect ("case " ++ (← expr? S k.depth (← value)) ++ ":")
  | .caseDefault => some (Code.sect "default:")
  | .forIn target key iterable guard body => do
    let iterable ← iterable
    let stem := (← S.stem?) ++ toString (k.depth + 1)
    let source ← expr? S (k.depth + 1) iterable
    let g ← optional? S (k.depth + 1) guard
    let inside := k.enter stem guard.isSome (body.any Node.isForElse)
    let code ← nodes? (inside.using (Expr.usesLoopOption guard)) body
    return Code.Loop.code ⟨stem, source, target, key, g, code,
      Expr.usesLoopOption guard || Node.usesLoop body, body.any Node.isForElse⟩
  | .forElse => some <| match k.branch with
    | some b => Code.Loop.branch b.stem b.guarded k.used
    | none => ""
  | .assign as =>
    if as.isEmpty then none
    else (assignments? S k.depth as).map fun code => "<?php" ++ code ++ " ?>"
  | .block _ body => nodes? k body
  | .extending _ => none
  | .including path params => include? S k.depth path params
  | .macroDef name params body => do
    let given ← parameters? S k.depth name 0 params
    let code ← nodes? (k.using (params.any (Expr.usesLoopOption ·.fallback))) body
    return Code.Macro.code name given code
  | .evaluate e => do return Code.sect ((← expr? S k.depth (← e)) ++ ";")
  | .returning e => do return Code.sect ("return " ++ (← expr? S k.depth (← e)) ++ ";")
  | .autoescape enabled body => do
    let enabled ← enabled
    nodes? { k with autoescape := enabled } body
  | .continueLoop => some (Code.sect "continue;")
  | .breakLoop => some (Code.sect "break;")
  | .cached key lifetime body => do
    let code ← expr? S k.depth (← key)
    let life ← optional? S k.depth lifetime
    let inside ← nodes? (k.using (Expr.usesLoopOption key || Expr.usesLoopOption lifetime)) body
    return Code.cached code life inside
  | .unknown => none

/-- The last branch of a conditional, if there is one. -/
def elseCode? (k : Spot) : Option (List Node) → Option String
  | none => some ""
  | some body => do
    let code ← nodes? k body
    return Code.elseOpen ++ code

/-- The code of statements one after another. -/
def nodes? (k : Spot) : List Node → Option String
  | [] => some ""
  | .mk s _ :: rest => do
    let code ← stmt? k s
    let more ← nodes? (k.using s.usesLoop) rest
    return code ++ more

end

end Plain

/-- What the code of a template depends on, of a compiler and the name of the
template. -/
def Compiler.site (c : Compiler) (source : String) : Plain.Site where
  functions := c.functions
  filters := c.filters
  services := c.services
  stem? := if isIdentifier (c.stemFor source) then some (c.stemFor source) else none

/-- Outside all loops. -/
def Plain.Spot.outermost (autoescape : Bool) : Plain.Spot := ⟨autoescape, 0, none, false⟩

end Stencil
