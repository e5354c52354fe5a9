/-
# Properties that statements keep

What a statement does is put together from few things: it emits expressions, opens a
list, a loop or a switch of escaping, takes notes, compiles a template it names, and
appends segments and registers blocks. A property of emissions that all of these have,
and that sequences keep, holds of every statement: it is a relation in which each emission
stands to itself. Which bodies may be registered can be restricted, and then so are the
blocks of the tree.

Key definitions: `Emit.Stable`, `Emit.BlocksIn`.
Key theorems: `Emit.Stable.congruence`, `Emit.Stable.lockstep`, `Emit.list_stable`.
-/
import Stencil.Proofs.Backdrop
import Stencil.Proofs.Lockstep

namespace Stencil
namespace Emit

/-- A property that is kept by all that statements do, where the bodies they register
are in `B`. -/
structure Stable (env : Env) (P : (α : Type) → EmitM α → Prop) (B : List Node → Prop) : Prop where
  pure : ∀ {α : Type} (a : α), P α (pure a)
  throw : ∀ {α : Type} (e : CompileError), P α (throw e)
  fail : ∀ {α : Type} (cause : Location → CompileError), P α (fail env cause)
  bind : ∀ {α β : Type} {m : EmitM α} {f : α → EmitM β}, P α m → (∀ a, P β (f a)) → P β (m >>= f)
  get_bind : ∀ {α : Type} {f : State → EmitM α}, (∀ s, P α (f s)) → P α (get >>= f)
  /-- Notes about macros, loops and the loop stem. -/
  note : ∀ {upd : State → State}, (∀ s, Kept s (upd s)) → P PUnit (modify upd)
  onDisk : ∀ {α : Type} (act : DiskM α), P α (onDisk act)
  extend : ∀ blocks : BlockMap,
    P PUnit (modify fun s => { s with extended := true, parent := some blocks })
  append : ∀ code : String, P PUnit (modify fun s => { s with blocks := s.blocks.append code })
  register : ∀ name body, B body → P PUnit (register name body)
  inExpr : ∀ {m : EmitM String}, P String m → P String (inExpr m)
  inLoop : ∀ {m : EmitM String}, P String m → P String (inLoop m)
  inList : ∀ counted {m : EmitM (String × Bool)}, P _ m → P _ (inList counted m)
  inStmt : ∀ pos {m : EmitM (String × Bool)}, P _ m → P _ (inStmt pos m)
  inAutoescape : ∀ enabled {m : EmitM String}, P String m → P String (inAutoescape enabled m)
  super : P String env.superBlock

section
variable {env : Env} {P : (α : Type) → EmitM α → Prop} {B : List Node → Prop} (H : Stable env P B)
include H

/-! ### Expressions -/

theorem loopStem_stable : P String (loopStem env) := by
  refine H.get_bind fun s => ?_
  dsimp only
  split
  · exact H.pure _
  · split
    · exact H.bind (H.note fun _ => rfl) fun _ => H.pure _
    · exact H.throw _

theorem identifier_stable (name : String) : P String (identifier env name) := by
  refine H.get_bind fun s => ?_
  dsimp only
  split
  · refine H.bind (H.note fun _ => rfl) fun _ => ?_
    exact H.bind (loopStem_stable H) fun _ => H.pure _
  · split <;> exact H.pure _

theorem Stable.congruence : Congruence env env fun α m _ => P α m where
  pure := H.pure
  throw := H.throw
  bind := H.bind
  inExpr := H.inExpr
  fail := H.fail
  identifier := identifier_stable H
  super := H.super
  expression _ := rfl
  function _ _ _ := rfl
  filter _ _ _ := rfl
  functions := rfl
  filters := rfl

theorem expr_stable (e : Expr) : P String (expr env e) := expr_related H.congruence e

/-! ### Statements -/

theorem included_stable (path : String) : P String (included env path) :=
  H.get_bind fun _ => H.bind (H.onDisk _) fun _ => H.pure _

theorem extendView_stable (path : Option Expr) : P PUnit (extendView env path) := by
  unfold extendView
  split
  · refine H.get_bind fun s => H.bind (H.onDisk _) fun output => ?_
    exact H.extend output.toBlocks
  · exact H.fail _

theorem defineMacro_stable (name : String) : P PUnit (defineMacro env name) := by
  refine H.get_bind fun s => ?_
  split
  · exact H.fail _
  · exact H.note fun _ => rfl

theorem forElse_stable : P String forElse := by
  refine H.get_bind fun s => ?_
  split <;> exact H.pure _

theorem segment_stable (code : String) : P PUnit (segment code) := by
  unfold segment
  split
  · exact H.pure _
  · exact H.append code

theorem clearLoop_stable (depth : Nat) : P PUnit (modify (·.clearLoop depth)) := H.note fun _ => rfl

theorem noteBranch_stable (depth : Nat) (branch : Branch) (branched : Bool) :
    P PUnit (noteBranch depth branch branched) := by
  unfold noteBranch
  split
  · exact H.note fun _ => rfl
  · exact H.pure _

/-- A property of single emissions as a relation of an emission with itself. -/
theorem Stable.lockstep :
    Lockstep (fun _ => True) (fun x => ∀ name body, x = .block name body → B body) env env fun α m _ => P α m where
  toCongruenceOn := H.congruence.on
  uses _ _ _ _ _ := trivial
  statement _ := rfl
  look h := H.get_bind fun s => h s s ⟨rfl, rfl, rfl, rfl⟩
  loopStem := loopStem_stable H
  clearLoop := clearLoop_stable H
  noteBranch := noteBranch_stable H
  takeRecorded depth := H.get_bind fun _ => H.bind (clearLoop_stable H depth) fun _ => H.pure _
  forElse := forElse_stable H
  defineMacro := defineMacro_stable H
  segment := segment_stable H
  register name body h := H.register name body (h _ (Stmt.mem_statements _) name body rfl)
  extendView path _ := extendView_stable H path
  included path _ := included_stable H path
  inLoop := H.inLoop
  inList counted := H.inList counted
  inStmt pos := H.inStmt pos
  inAutoescape enabled := H.inAutoescape enabled

theorem turn_stable (target : String) (key : Option String) (iterable : Expr) (guard : Option Expr)
    (branched : Bool) {body : EmitM String} (h : P String body) :
    P String (turn env target key iterable guard branched body) :=
  @turn_lockstep _ _ _ _ _ H.lockstep target key iterable guard branched (fun _ _ => trivial)
    (fun _ _ _ _ => trivial) body body h

end

/-- The bodies of all blocks among the statements are in `B`. -/
def BlocksIn (B : List Node → Prop) (xs : List Stmt) : Prop :=
  ∀ name body, .block name body ∈ xs → B body

section
variable {env : Env} {P : (α : Type) → EmitM α → Prop} {B : List Node → Prop}

/-- Statements have the property, if the bodies of their blocks are in `B`. -/
theorem nodes_stable (H : Stable env P B) (mode : Mode) (ns : List Node) (h : BlocksIn B (Node.statements ns))
    (registering : Bool) (code : String) : P _ (nodes env mode ns registering code) := by
  refine nodes_lockstep H.lockstep mode ns ?_ registering code
  rintro _ hx name body rfl
  exact h name body hx

theorem list_stable (H : Stable env P B) (mode : Mode) {ns : List Node}
    (h : BlocksIn B (Node.statements ns)) : P String (list env mode ns) := by
  refine list_lockstep H.lockstep mode ns ?_
  rintro _ hx name body rfl
  exact h name body hx

end
end Emit
end Stencil
