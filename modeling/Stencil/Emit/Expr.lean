/-
# Emitting expressions

The code of an expression. Extensions are asked first, at every level. What a
call of the parent's block becomes is for the environment to say.

Key definitions:
* `Emit.expr`: the code of an expression.
* `Emit.lowered`: the same within the level that the expression opens.
* `Emit.args`: the code of each argument of a call.
-/
import Stencil.Code.Call
import Stencil.Code.Section
import Stencil.Decimal.Numeral
import Stencil.Emit.Basic

namespace Stencil
namespace Emit

/-- Doubles in generated code are positional from 0.0001 up to 10^16; an
exponent has a sign only when it is negative. -/
def numeral : Decimal.Numeral where
  lowest := -4
  beyond := 16
  mark := "e"
  tie := .up
  infinite := "inf"
  notANumber := "NaN"

/-- An argument with its keyword. -/
def keyword (name : Option String) (code : String) : String :=
  match name with
  | some n => Text.quote n ++ " => " ++ code
  | none => code

/-- Extensions are asked about an expression before `emit` is run. -/
def asked (env : Env) (e : Expr) (emit : EmitM String) : EmitM String :=
  match env.compiler.handled (·.expression e) with
  | some code => pure code
  | none => emit

/-- One more expression is open, and extensions are asked about it before `emit`
is run. -/
def hooked (env : Env) (e : Expr) (emit : EmitM String) : EmitM String := inExpr (asked env e emit)

/-- The object of an attribute. A variable is not asked about. -/
def objectCode (env : Env) (object : Expr) (emit : EmitM String) : EmitM String :=
  match object with
  | .var name => identifier env name
  | _ => emit

/-- The name of an attribute. A variable stands for its own name. -/
def attrCode (attr : Expr) (emit : EmitM String) : EmitM String :=
  match attr with
  | .var name => pure name
  | _ => emit

/-- A call by name, given the code of its arguments. -/
def callNamed (env : Env) (name arguments : String) (raw : List Arg) : EmitM String :=
  match env.compiler.handled (·.function name arguments raw) with
  | some code => pure code
  | none =>
    match env.compiler.functions.lookup name with
    | some f => ofExcept (f.expand arguments raw)
    | none => if name = "super" then env.superBlock else pure (Code.call name arguments)

/-- A call, given the code of its arguments; `emit` emits a callee that is no
name. -/
def callCode (env : Env) (callee : Expr) (arguments : String) (raw : List Arg)
    (emit : EmitM String) : EmitM String :=
  match callee with
  | .var name => callNamed env name arguments raw
  | _ => do return Code.apply (← emit) arguments

/-- A filter by name on the operand `l`. `arguments` is the code of its
arguments, `raw` what they come from, and `glue` emits the first argument of the
filter that joins. -/
def filterNamed (env : Env) (name l arguments : String) (raw : List Arg) (glue : EmitM String) :
    EmitM String :=
  match env.compiler.handled (·.filter name arguments raw) with
  | some code => pure code
  | none =>
    match env.compiler.filters.lookup name with
    | some f => ofExcept (f.expand arguments raw)
    | none =>
      if name = "join" then do
        return Code.apply "join" (Code.commas [← glue, l])
      else
        match Code.filter? name l arguments with
        | some code => pure code
        | none => fail env (.unknownFilter name)

/-- The arguments of a filter on the operand `l`. The operand comes first, except
for the filter that supplies a default. -/
def filterArgs (name l : String) (arguments : List Arg) : List Arg :=
  if name = "default" then arguments else ⟨.resolved l, none⟩ :: arguments

/-- A filter on the operand `l`. `operands` emits its arguments, `glue` the first
of them. The operand is an argument by itself, and extensions are asked about it
again when there are others. -/
def filterCode (env : Env) (filter : Expr) (l : String) (operands : EmitM (List String))
    (glue : EmitM String) : EmitM String :=
  match filter with
  | .var name => filterNamed env name l l (filterArgs name l []) glue
  | .call (.var name) raw => do
    let given ←
      if name = "default" then
        if raw.isEmpty then pure l else Code.commas <$> operands
      else do
        let first ← hooked env (.resolved l) (pure l)
        let rest ← operands
        pure (Code.commas (first :: rest))
    filterNamed env name l given (filterArgs name l raw) glue
  | _ => fail env .invalidFilter

/-- A test on the operand `l`. `operands` emits the arguments of the test, `whole`
the test as an expression, which is compared with when it is not built in. -/
def testCode (test : Expr) (l : String) (operands : EmitM (List String)) (whole : EmitM String) :
    EmitM String :=
  let equal : EmitM String := do return Code.between l "==" (← whole)
  match test with
  | .var name =>
    match Code.test? name l with
    | some code => pure code
    | none => equal
  | .call (.var name) _ =>
    if name ∈ Code.operandTests then do
      return Code.operandTest name l (Code.commas (← operands))
    else equal
  | _ => equal

mutual

/-- The code of an expression within its own level, when no extension answers. -/
def lowered (env : Env) : Expr → EmitM String
  | .integer v => pure (toString v.toInt)
  | .double v => pure (numeral.render v)
  | .str v => pure (Text.quote v)
  | .bool v => pure (if v then "true" else "false")
  | .null => pure "null"
  | .var name => identifier env name
  | .property object attr => do
    let o ← objectCode env object (hooked env object (lowered env object))
    let a ← attrCode attr (hooked env attr (lowered env attr))
    return o ++ "->" ++ a
  | .index object index => do
    let o ← hooked env object (lowered env object)
    let i ← hooked env index (lowered env index)
    return o ++ "[" ++ i ++ "]"
  | .binary op left right => do
    let l ← hooked env left (lowered env left)
    let r ← hooked env right (lowered env right)
    return op.code l r
  | .unary op operand => do
    let code ← hooked env operand (lowered env operand)
    return op.code code
  | .call callee arguments => do
    let given ← args env arguments
    callCode env callee (Code.commas given) arguments (hooked env callee (lowered env callee))
  | .filter left filter => do
    let l ← hooked env left (lowered env left)
    filterCode env filter l (operands env filter) (glue env filter)
  | .is left test => do
    let l ← hooked env left (lowered env left)
    testCode test l (operands env test) (hooked env test (lowered env test))
  | .isNot left test => do
    let l ← hooked env left (lowered env left)
    let code ← testCode test l (operands env test) (hooked env test (lowered env test))
    return "!(" ++ code ++ ")"
  | .ternary condition yes no => do
    let c ← hooked env condition (lowered env condition)
    let y ← hooked env yes (lowered env yes)
    let n ← hooked env no (lowered env no)
    return "(" ++ c ++ " ? " ++ y ++ " : " ++ n ++ ")"
  | .slice object start stop => do
    let o ← hooked env object (lowered env object)
    let s ← exprOrNull env start
    let e ← exprOrNull env stop
    return Code.apply "$this->slice" (Code.commas [o, s, e])
  | .array items => do
    let codes ← args env items
    return "[" ++ Code.commas codes ++ "]"
  | .enclosed inner => do
    let code ← hooked env inner (lowered env inner)
    return "(" ++ code ++ ")"
  | .resolved code => pure code
  | .unknown => fail env .unknownExpression

/-- The code of each argument, from left to right. -/
def args (env : Env) : List Arg → EmitM (List String)
  | [] => pure []
  | ⟨e, name⟩ :: rest => do
    let code ← hooked env e (lowered env e)
    let codes ← args env rest
    return keyword name code :: codes

/-- The code of each argument of a call; other expressions have none. -/
def operands (env : Env) : Expr → EmitM (List String)
  | .call _ arguments => args env arguments
  | _ => pure []

/-- The code of the first argument of a call, else of an empty text. -/
def glue (env : Env) : Expr → EmitM String
  | .call _ (⟨e, _⟩ :: _) => hooked env e (lowered env e)
  | _ => pure "''"

/-- The code of an expression that may be missing. -/
def exprOrNull (env : Env) : Option Expr → EmitM String
  | none => pure "null"
  | some e => hooked env e (lowered env e)

end

/-- The code of an expression. -/
def expr (env : Env) (e : Expr) : EmitM String := hooked env e (lowered env e)

/-- The code of an optional expression, if there is one. -/
def expr? (env : Env) : Option Expr → EmitM (Option String)
  | none => pure none
  | some e => some <$> expr env e

end Emit
end Stencil
