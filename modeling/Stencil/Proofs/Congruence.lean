/-
# Relations that expressions keep

An expression puts emissions together in few ways: it runs them one after another,
opens one more expression, asks for a variable or for the parent's block, or fails. A
relation of emissions that is kept by these holds of the emissions of every
expression, by one pass over the tree. What is related may be two emissions, as where
they agree on different disks, or only the first of them, as where it leaves part of
the state alone. The registries of the two may differ in names that the expression does
not use.

Key definitions: `Emit.CongruenceOn`, `Emit.Congruence`.
Key theorems: `Emit.expr_on`, `Emit.expr_related`, `Emit.assign_on`, `Emit.parameters_on`.
-/
import Stencil.Proofs.Uses

namespace Stencil
namespace Emit

/-- A relation of emissions in two environments that is kept by all ways of putting
expressions together. Extensions answer the same in both. -/
structure Composes (env₁ env₂ : Env) (P : (α : Type) → EmitM α → EmitM α → Prop) : Prop where
  pure : ∀ {α : Type} (a : α), P α (pure a) (pure a)
  throw : ∀ {α : Type} (e : CompileError), P α (throw e) (throw e)
  bind : ∀ {α β : Type} {m₁ m₂ : EmitM α} {f₁ f₂ : α → EmitM β}, P α m₁ m₂ →
    (∀ a, P β (f₁ a) (f₂ a)) → P β (m₁ >>= f₁) (m₂ >>= f₂)
  inExpr : ∀ {m₁ m₂ : EmitM String}, P String m₁ m₂ → P String (inExpr m₁) (inExpr m₂)
  fail : ∀ {α : Type} (cause : Location → CompileError), P α (fail env₁ cause) (fail env₂ cause)
  super : P String env₁.superBlock env₂.superBlock
  expression : ∀ e, env₁.compiler.handled (·.expression e) = env₂.compiler.handled (·.expression e)
  function : ∀ name arguments raw, env₁.compiler.handled (·.function name arguments raw) =
    env₂.compiler.handled (·.function name arguments raw)
  filter : ∀ name arguments raw, env₁.compiler.handled (·.filter name arguments raw) =
    env₂.compiler.handled (·.filter name arguments raw)

/-- A relation that is kept by all that expressions do. Registries answer the same about
the names in `U`. -/
structure CongruenceOn (U : Use → Prop) (env₁ env₂ : Env)
    (P : (α : Type) → EmitM α → EmitM α → Prop) :
    Prop extends Composes env₁ env₂ P where
  identifier : ∀ name, U (.variable name) → P String (identifier env₁ name) (identifier env₂ name)
  functions : ∀ name, U (.function name) →
    env₁.compiler.functions.lookup name = env₂.compiler.functions.lookup name
  filters : ∀ name, U (.filter name) →
    env₁.compiler.filters.lookup name = env₂.compiler.filters.lookup name

/-- A relation that is kept by all that expressions do, whatever names they use. -/
structure Congruence (env₁ env₂ : Env) (P : (α : Type) → EmitM α → EmitM α → Prop) :
    Prop extends Composes env₁ env₂ P where
  identifier : ∀ name, P String (identifier env₁ name) (identifier env₂ name)
  functions : env₁.compiler.functions = env₂.compiler.functions
  filters : env₁.compiler.filters = env₂.compiler.filters

variable {U : Use → Prop} {env₁ env₂ : Env} {P : (α : Type) → EmitM α → EmitM α → Prop}

theorem Congruence.on (H : Congruence env₁ env₂ P) : CongruenceOn (fun _ => True) env₁ env₂ P where
  toComposes := H.toComposes
  identifier name _ := H.identifier name
  functions _ _ := by rw [H.functions]
  filters _ _ := by rw [H.filters]

/-! ### Parts of expressions -/

section
variable (H : Composes env₁ env₂ P)
include H

theorem Composes.map {α β : Type} {m₁ m₂ : EmitM α} (f : α → β) (h : P α m₁ m₂) :
    P β (f <$> m₁) (f <$> m₂) := by
  rw [map_eq_pure_bind, map_eq_pure_bind]
  exact H.bind h fun a => H.pure (f a)

theorem Composes.required {α : Type} (part : Stmt.Part) (a : Option α) :
    P α (Emit.required env₁ part a) (Emit.required env₂ part a) := by
  cases a with
  | some a => exact H.pure a
  | none => exact H.fail _

theorem Composes.ofExcept (r : Except CompileError String) :
    P String (Emit.ofExcept r) (Emit.ofExcept r) := by
  cases r with
  | ok a => exact H.pure a
  | error e => exact H.throw e

theorem Composes.hooked (e : Expr) {emit₁ emit₂ : EmitM String} (h : P String emit₁ emit₂) :
    P String (Emit.hooked env₁ e emit₁) (Emit.hooked env₂ e emit₂) := by
  refine H.inExpr ?_
  unfold asked
  rw [H.expression e]
  cases env₂.compiler.handled (·.expression e) with
  | some code => exact H.pure code
  | none => exact h

end

section
variable (H : CongruenceOn U env₁ env₂ P)
include H

theorem objectCode_on (object : Expr) (hu : Expr.Allowed U object.emitted)
    {emit₁ emit₂ : EmitM String} (h : P String emit₁ emit₂) :
    P String (objectCode env₁ object emit₁) (objectCode env₂ object emit₂) := by
  unfold objectCode
  split
  · rename_i name
    exact H.identifier name ((Expr.allowed_cons.1 hu).1 _ rfl)
  · exact h

theorem attrCode_on (attr : Expr) (parts : List Expr) (hu : Expr.Allowed U (attr.unlessName parts))
    {emit₁ emit₂ : EmitM String} (h : Expr.Allowed U parts → P String emit₁ emit₂) :
    P String (attrCode attr emit₁) (attrCode attr emit₂) := by
  cases attr with
  | var name => exact H.pure name
  | _ => exact h hu

theorem callNamed_on (name arguments : String) (raw : List Arg) (hu : U (.function name)) :
    P String (callNamed env₁ name arguments raw) (callNamed env₂ name arguments raw) := by
  unfold callNamed
  rw [H.function, H.functions name hu]
  split
  · exact H.pure _
  · split
    · exact H.ofExcept _
    · split
      · exact H.super
      · exact H.pure _

theorem callCode_on (callee : Expr) (arguments : String) (raw : List Arg) (parts : List Expr)
    (hlook : ∀ u, (Expr.call callee raw).look? = some u → U u)
    (hu : Expr.Allowed U (callee.unlessName parts))
    {emit₁ emit₂ : EmitM String} (h : Expr.Allowed U parts → P String emit₁ emit₂) :
    P String (callCode env₁ callee arguments raw emit₁)
      (callCode env₂ callee arguments raw emit₂) := by
  cases callee with
  | var name => exact callNamed_on H name arguments raw (hlook _ rfl)
  | _ => exact H.bind (h hu) fun _ => H.pure _

theorem filterNamed_on (name l arguments : String) (raw : List Arg) (hu : U (.filter name))
    {glue₁ glue₂ : EmitM String} (h : P String glue₁ glue₂) :
    P String (filterNamed env₁ name l arguments raw glue₁)
      (filterNamed env₂ name l arguments raw glue₂) := by
  unfold filterNamed
  rw [H.filter, H.filters name hu]
  split
  · exact H.pure _
  · split
    · exact H.ofExcept _
    · split
      · exact H.bind h fun _ => H.pure _
      · split
        · exact H.pure _
        · exact H.fail _

theorem filterCode_on (left filter : Expr) (l : String)
    (hlook : ∀ u, (Expr.filter left filter).look? = some u → U u)
    (hu : Expr.Allowed U (filter.ofFilter filter.emittedOperands))
    {operands₁ operands₂ : EmitM (List String)} {glue₁ glue₂ : EmitM String}
    (ho : Expr.Allowed U filter.emittedOperands → P (List String) operands₁ operands₂)
    (hg : Expr.Allowed U filter.emittedOperands → P String glue₁ glue₂) :
    P String (filterCode env₁ filter l operands₁ glue₁)
      (filterCode env₂ filter l operands₂ glue₂) := by
  unfold filterCode
  split
  · exact filterNamed_on H _ _ _ _ (hlook _ rfl) (hg Expr.allowed_nil)
  · have named := fun raw given => filterNamed_on H _ l given raw (hlook _ rfl) (hg hu)
    dsimp only
    split
    · split
      · exact H.bind (H.pure _) (named _)
      · exact H.bind (H.map _ (ho hu)) (named _)
    · refine H.bind (H.hooked _ (H.pure _)) fun _ => H.bind (ho hu) fun _ => ?_
      exact H.bind (H.pure _) (named _)
  · exact H.fail _

theorem testCode_on (test : Expr) (l : String) (operands parts : List Expr)
    (hu : Expr.Allowed U (test.ofTest operands parts))
    {operands₁ operands₂ : EmitM (List String)} {whole₁ whole₂ : EmitM String}
    (ho : Expr.Allowed U operands → P (List String) operands₁ operands₂)
    (hw : Expr.Allowed U parts → P String whole₁ whole₂) :
    P String (testCode test l operands₁ whole₁) (testCode test l operands₂ whole₂) := by
  have equal : Expr.Allowed U parts → P String (do return Code.between l "==" (← whole₁))
      (do return Code.between l "==" (← whole₂)) := fun hu => H.bind (hw hu) fun _ => H.pure _
  unfold testCode
  split
  · rename_i name
    have hname := Code.test?_isSome name l
    split
    · exact H.pure _
    · rename_i hnone
      rw [hnone, Option.isSome_none, eq_comm, decide_eq_false_iff_not] at hname
      exact equal (by simpa [Expr.ofTest, hname] using hu)
  · split
    · rename_i hmem
      exact H.bind (ho (by simpa [Expr.ofTest, hmem] using hu)) fun _ => H.pure _
    · rename_i hmem
      exact equal (by simpa [Expr.ofTest, hmem] using hu)
  · rename_i hvar hcall
    refine equal ?_
    unfold Expr.ofTest at hu
    split at hu
    · exact absurd rfl (hvar _)
    · exact absurd rfl (hcall _ _)
    · exact hu

end

/-! ### Expressions -/

mutual

/-- The emissions of an expression that looks up names of `U` are related. -/
theorem expr_of_allowed (H : CongruenceOn U env₁ env₂ P) : ∀ e : Expr, Expr.Allowed U e.emitted →
    P String (expr env₁ e) (expr env₂ e)
  | .integer _, _ | .double _, _ | .str _, _ | .bool _, _ | .null, _ | .resolved _, _ => by
    rw [expr, expr, lowered, lowered]
    exact H.hooked _ (H.pure _)
  | .var name, hu => by
    rw [expr, expr, lowered, lowered]
    exact H.hooked _ (H.identifier name ((Expr.allowed_cons.1 hu).1 _ rfl))
  | .property object attr, hu => by
    simp only [Expr.emitted, Expr.allowed_cons, Expr.allowed_append] at hu
    rw [expr, expr, lowered, lowered]
    refine H.hooked _
      (H.bind (objectCode_on H _ hu.2.1 (expr_of_allowed H object hu.2.1)) fun _ => ?_)
    exact H.bind (attrCode_on H _ _ hu.2.2 (expr_of_allowed H attr)) fun _ => H.pure _
  | .index object index, hu => by
    simp only [Expr.emitted, Expr.allowed_cons, Expr.allowed_append] at hu
    rw [expr, expr, lowered, lowered]
    refine H.hooked _ (H.bind (expr_of_allowed H object hu.2.1) fun _ => ?_)
    exact H.bind (expr_of_allowed H index hu.2.2) fun _ => H.pure _
  | .binary _ left right, hu => by
    simp only [Expr.emitted, Expr.allowed_cons, Expr.allowed_append] at hu
    rw [expr, expr, lowered, lowered]
    refine H.hooked _ (H.bind (expr_of_allowed H left hu.2.1) fun _ => ?_)
    exact H.bind (expr_of_allowed H right hu.2.2) fun _ => H.pure _
  | .unary _ operand, hu => by
    rw [expr, expr, lowered, lowered]
    exact H.hooked _ (H.bind (expr_of_allowed H operand (Expr.allowed_cons.1 hu).2) fun _ =>
      H.pure _)
  | .call callee arguments, hu => by
    simp only [Expr.emitted, Expr.allowed_cons, Expr.allowed_append] at hu
    rw [expr, expr, lowered, lowered]
    refine H.hooked _ (H.bind (args_of_allowed H arguments hu.2.1) fun _ => ?_)
    exact callCode_on H _ _ _ _ hu.1 hu.2.2 (expr_of_allowed H callee)
  | .filter left filter, hu => by
    simp only [Expr.emitted, Expr.allowed_cons, Expr.allowed_append] at hu
    rw [expr, expr, lowered, lowered]
    refine H.hooked _ (H.bind (expr_of_allowed H left hu.2.1) fun _ => ?_)
    exact filterCode_on H left filter _ hu.1 hu.2.2 (operands_of_allowed H filter)
      (glue_of_allowed H filter)
  | .is left test, hu => by
    simp only [Expr.emitted, Expr.allowed_cons, Expr.allowed_append] at hu
    rw [expr, expr, lowered, lowered]
    refine H.hooked _ (H.bind (expr_of_allowed H left hu.2.1) fun _ => ?_)
    exact testCode_on H _ _ _ _ hu.2.2 (operands_of_allowed H test) (expr_of_allowed H test)
  | .isNot left test, hu => by
    simp only [Expr.emitted, Expr.allowed_cons, Expr.allowed_append] at hu
    rw [expr, expr, lowered, lowered]
    refine H.hooked _ (H.bind (expr_of_allowed H left hu.2.1) fun _ => ?_)
    exact H.bind (testCode_on H _ _ _ _ hu.2.2 (operands_of_allowed H test)
      (expr_of_allowed H test)) fun _ => H.pure _
  | .ternary condition yes no, hu => by
    simp only [Expr.emitted, Expr.allowed_cons, Expr.allowed_append] at hu
    rw [expr, expr, lowered, lowered]
    refine H.hooked _ (H.bind (expr_of_allowed H condition hu.2.1) fun _ => ?_)
    refine H.bind (expr_of_allowed H yes hu.2.2.1) fun _ => ?_
    exact H.bind (expr_of_allowed H no hu.2.2.2) fun _ => H.pure _
  | .slice object start stop, hu => by
    simp only [Expr.emitted, Expr.allowed_cons, Expr.allowed_append] at hu
    rw [expr, expr, lowered, lowered]
    refine H.hooked _ (H.bind (expr_of_allowed H object hu.2.1) fun _ => ?_)
    refine H.bind (exprOrNull_of_allowed H start hu.2.2.1) fun _ => ?_
    exact H.bind (exprOrNull_of_allowed H stop hu.2.2.2) fun _ => H.pure _
  | .array items, hu => by
    rw [expr, expr, lowered, lowered]
    exact H.hooked _ (H.bind (args_of_allowed H items (Expr.allowed_cons.1 hu).2) fun _ => H.pure _)
  | .enclosed inner, hu => by
    rw [expr, expr, lowered, lowered]
    exact H.hooked _ (H.bind (expr_of_allowed H inner (Expr.allowed_cons.1 hu).2) fun _ => H.pure _)
  | .unknown, _ => by rw [expr, expr, lowered, lowered]; exact H.hooked _ (H.fail _)

theorem args_of_allowed (H : CongruenceOn U env₁ env₂ P) :
    ∀ as : List Arg, Expr.Allowed U (Expr.emittedArgs as) →
    P (List String) (args env₁ as) (args env₂ as)
  | [], _ => by rw [args, args]; exact H.pure _
  | ⟨e, _⟩ :: rest, hu => by
    simp only [Expr.emittedArgs, Expr.allowed_append] at hu
    rw [args, args]
    exact H.bind (expr_of_allowed H e hu.1) fun _ =>
      H.bind (args_of_allowed H rest hu.2) fun _ => H.pure _

theorem operands_of_allowed (H : CongruenceOn U env₁ env₂ P) :
    ∀ e : Expr, Expr.Allowed U e.emittedOperands →
    P (List String) (operands env₁ e) (operands env₂ e)
  | .call _ arguments, hu => by rw [operands, operands]; exact args_of_allowed H arguments hu
  | .integer _, _ | .double _, _ | .str _, _ | .bool _, _ | .null, _ | .var _, _ | .property .., _
  | .index .., _ | .binary .., _ | .unary .., _ | .filter .., _ | .is .., _ | .isNot .., _
  | .ternary .., _ | .slice .., _ | .array _, _ | .enclosed _, _ | .resolved _, _
  | .unknown, _ => by
    simp only [operands]; exact H.pure _

theorem glue_of_allowed (H : CongruenceOn U env₁ env₂ P) :
    ∀ e : Expr, Expr.Allowed U e.emittedOperands →
    P String (glue env₁ e) (glue env₂ e)
  | .call _ (⟨e, _⟩ :: _), hu => by
    simp only [Expr.emittedOperands, Expr.emittedArgs, Expr.allowed_append] at hu
    rw [glue, glue]
    exact expr_of_allowed H e hu.1
  | .call _ [], _ | .integer _, _ | .double _, _ | .str _, _ | .bool _, _ | .null, _ | .var _, _
  | .property .., _ | .index .., _ | .binary .., _ | .unary .., _ | .filter .., _ | .is .., _
  | .isNot .., _ | .ternary .., _ | .slice .., _ | .array _, _ | .enclosed _, _ | .resolved _, _
  | .unknown, _ => by
    simp only [glue]; exact H.pure _

theorem exprOrNull_of_allowed (H : CongruenceOn U env₁ env₂ P) : ∀ e : Option Expr,
    Expr.Allowed U (Expr.emittedOption e) →
    P String (exprOrNull env₁ e) (exprOrNull env₂ e)
  | none, _ => by rw [exprOrNull, exprOrNull]; exact H.pure _
  | some e, hu => by rw [exprOrNull, exprOrNull]; exact expr_of_allowed H e hu

end

theorem expr_on (H : CongruenceOn U env₁ env₂ P) (e : Expr) (hu : ∀ u ∈ e.uses, U u) :
    P String (expr env₁ e) (expr env₂ e) := expr_of_allowed H e (Expr.allowed_emitted.2 hu)

/-! ### Statements that are made of expressions -/

theorem fail_bind {α β : Type} (env : Env) (cause : Location → CompileError) (f : α → EmitM β) :
    fail env cause >>= f = fail env cause := rfl

section
variable (H : CongruenceOn U env₁ env₂ P)
include H

theorem expr?_on (e : Option Expr) (hu : ∀ x ∈ e.toList, ∀ u ∈ x.uses, U u) :
    P (Option String) (expr? env₁ e) (expr? env₂ e) := by
  cases e with
  | none => exact H.pure _
  | some e => exact H.map _ (expr_on H e (hu e List.mem_cons_self))

/-- A part that a statement cannot do without, and what is done with it. -/
theorem required_bind_on {α β : Type} (part : Stmt.Part) (a : Option α) {f₁ f₂ : α → EmitM β}
    (hf : ∀ x ∈ a.toList, P β (f₁ x) (f₂ x)) :
    P β (required env₁ part a >>= f₁) (required env₂ part a >>= f₂) := by
  cases a with
  | none =>
    rw [required, required, fail_bind, fail_bind]
    exact H.fail _
  | some a =>
    rw [required, required, pure_bind, pure_bind]
    exact hf a List.mem_cons_self

/-- An expression that a statement cannot do without. -/
theorem operand_on {β : Type} (part : Stmt.Part) (e : Option Expr)
    (hu : ∀ x ∈ e.toList, ∀ u ∈ x.uses, U u)
    {f₁ f₂ : String → EmitM β} (hf : ∀ code, P β (f₁ code) (f₂ code)) :
    P β (required env₁ part e >>= fun e => expr env₁ e >>= f₁)
      (required env₂ part e >>= fun e => expr env₂ e >>= f₂) :=
  required_bind_on H part e fun x hx => H.bind (expr_on H x (hu x hx)) hf

theorem assignments_on : ∀ as : List Assignment, (∀ e ∈ (Stmt.assign as).exprs, ∀ u ∈ e.uses, U u) →
    P String (assignments env₁ as) (assignments env₂ as)
  | [], _ => by rw [assignments, assignments]; exact H.pure _
  | a :: rest, hu => by
    simp only [Stmt.exprs, List.flatMap_cons, List.forall_mem_append, List.forall_mem_cons] at hu
    rw [assignments, assignments]
    refine operand_on H _ _ hu.1.2 fun _ => H.bind (expr_on H a.target hu.1.1) fun _ => ?_
    exact H.bind (assignments_on rest hu.2) fun _ => H.pure _

theorem assign_on (as : List Assignment) (hu : ∀ e ∈ (Stmt.assign as).exprs, ∀ u ∈ e.uses, U u) :
    P String (assign env₁ as) (assign env₂ as) := by
  unfold assign
  split
  · exact H.fail _
  · exact H.bind (assignments_on H as hu) fun _ => H.pure _

theorem parameters_on (name : String) : ∀ (i : Nat) (ps : List Parameter),
    (∀ e ∈ ps.flatMap (fun p => p.fallback.toList), ∀ u ∈ e.uses, U u) →
    P (List String) (parameters env₁ name i ps) (parameters env₂ name i ps)
  | _, [], _ => by rw [parameters, parameters]; exact H.pure _
  | i, p :: rest, hu => by
    simp only [List.flatMap_cons, List.forall_mem_append] at hu
    rw [parameters, parameters]
    have more := fun code : String => H.bind (parameters_on name (i + 1) rest hu.2) fun codes =>
      H.pure (Code.Macro.parameter i p.name code :: codes)
    dsimp only
    split
    · rename_i e he
      exact H.bind (H.map _ (expr_on H e (hu.1 e (by simp [he])))) more
    · exact H.bind (H.pure _) more

end

/-! ### Whatever names are used -/

section
variable (H : Congruence env₁ env₂ P)
include H

theorem required_related {α : Type} (part : Stmt.Part) (a : Option α) :
    P α (required env₁ part a) (required env₂ part a) := H.required part a

theorem objectCode_related (object : Expr) {emit₁ emit₂ : EmitM String} (h : P String emit₁ emit₂) :
    P String (objectCode env₁ object emit₁) (objectCode env₂ object emit₂) :=
  objectCode_on H.on object (fun _ _ _ _ => trivial) h

theorem attrCode_related (attr : Expr) {emit₁ emit₂ : EmitM String} (h : P String emit₁ emit₂) :
    P String (attrCode attr emit₁) (attrCode attr emit₂) :=
  attrCode_on H.on attr [] (fun _ _ _ _ => trivial) fun _ => h

theorem filterCode_related (filter : Expr) (l : String) {operands₁ operands₂ : EmitM (List String)}
    {glue₁ glue₂ : EmitM String} (ho : P (List String) operands₁ operands₂)
    (hg : P String glue₁ glue₂) :
    P String (filterCode env₁ filter l operands₁ glue₁)
      (filterCode env₂ filter l operands₂ glue₂) :=
  filterCode_on H.on .null filter l (fun _ _ => trivial) (fun _ _ _ _ => trivial) (fun _ => ho)
    fun _ => hg

theorem testCode_related (test : Expr) (l : String) {operands₁ operands₂ : EmitM (List String)}
    {whole₁ whole₂ : EmitM String} (ho : P (List String) operands₁ operands₂)
    (hw : P String whole₁ whole₂) :
    P String (testCode test l operands₁ whole₁) (testCode test l operands₂ whole₂) :=
  testCode_on H.on test l [] [] (fun _ _ _ _ => trivial) (fun _ => ho) fun _ => hw

theorem expr_related (e : Expr) : P String (expr env₁ e) (expr env₂ e) :=
  expr_on H.on e fun _ _ => trivial

theorem expr?_related (e : Option Expr) : P (Option String) (expr? env₁ e) (expr? env₂ e) :=
  expr?_on H.on e fun _ _ _ _ => trivial

theorem operand_related {β : Type} (part : Stmt.Part) (e : Option Expr) {f₁ f₂ : String → EmitM β}
    (hf : ∀ code, P β (f₁ code) (f₂ code)) :
    P β (required env₁ part e >>= fun e => expr env₁ e >>= f₁)
      (required env₂ part e >>= fun e => expr env₂ e >>= f₂) :=
  operand_on H.on part e (fun _ _ _ _ => trivial) hf

theorem assign_related (as : List Assignment) : P String (assign env₁ as) (assign env₂ as) :=
  assign_on H.on as fun _ _ _ _ => trivial

theorem parameters_related (name : String) (i : Nat) (ps : List Parameter) :
    P (List String) (parameters env₁ name i ps) (parameters env₂ name i ps) :=
  parameters_on H.on name i ps fun _ _ _ _ => trivial

end

end Emit
end Stencil
