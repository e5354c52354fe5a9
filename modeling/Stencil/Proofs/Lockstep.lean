/-
# Relations that statements keep

Two emissions of one tree go through the same steps, in environments and from states that
may differ. What a statement does is put together from few things: it emits expressions,
opens a list, a loop or a switch of escaping, takes notes, compiles a template it names,
and appends segments and registers blocks. A relation of emissions that is kept by all of
these holds of the emissions of every statement, by one pass over the tree. Which
statements and names the tree may have can be restricted.

Key definitions: `Emit.SameOutlook`, `Emit.Lockstep`.
Key theorems: `Emit.stmt_lockstep`, `Emit.list_lockstep`.
-/
import Stencil.Proofs.Congruence

namespace Stencil
namespace Emit

/-- The states are the same in what decides how a statement is emitted. -/
structure SameOutlook (s t : State) : Prop where
  autoescape : s.autoescape = t.autoescape
  blockLevel : s.blockLevel = t.blockLevel
  loopLevel : s.loopLevel = t.loopLevel
  extended : s.extended = t.extended

/-- The code of a template that is named by a literal. -/
def included (env : Env) (path : String) : EmitM String := do
  let view := env.compiler.viewPath (← get).disk path
  return (← onDisk (env.nested view .page)).toCode

/-- A relation of emissions in two environments that is kept by all that statements in `Q`
do, where their expressions use names of `U`. -/
structure Lockstep (U : Use → Prop) (Q : Stmt → Prop) (env₁ env₂ : Env)
    (P : (α : Type) → EmitM α → EmitM α → Prop) : Prop extends CongruenceOn U env₁ env₂ P where
  uses : ∀ {x : Stmt}, Q x → ∀ e ∈ x.exprs, ∀ u ∈ e.uses, U u
  statement : ∀ n, env₁.compiler.handled (·.statement n) = env₂.compiler.handled (·.statement n)
  look : ∀ {α : Type} {f₁ f₂ : State → EmitM α}, (∀ s t, SameOutlook s t → P α (f₁ s) (f₂ t)) →
    P α (get >>= f₁) (get >>= f₂)
  loopStem : P String (loopStem env₁) (loopStem env₂)
  clearLoop : ∀ depth, P PUnit (modify (·.clearLoop depth)) (modify (·.clearLoop depth))
  noteBranch : ∀ depth branch branched,
    P PUnit (noteBranch depth branch branched) (noteBranch depth branch branched)
  takeRecorded : ∀ depth, P Bool (takeRecorded depth) (takeRecorded depth)
  forElse : P String forElse forElse
  defineMacro : ∀ name, P PUnit (defineMacro env₁ name) (defineMacro env₂ name)
  segment : ∀ code, P PUnit (segment code) (segment code)
  register : ∀ name body, (∀ x ∈ (Stmt.block name body).statements, Q x) →
    P PUnit (register name body) (register name body)
  extendView : ∀ path, Q (.extending path) → P PUnit (extendView env₁ path) (extendView env₂ path)
  included : ∀ path, Q (.including (some (.str path)) none) →
    P String (included env₁ path) (included env₂ path)
  inLoop : ∀ {m₁ m₂ : EmitM String}, P String m₁ m₂ → P String (inLoop m₁) (inLoop m₂)
  inList : ∀ counted {m₁ m₂ : EmitM (String × Bool)}, P _ m₁ m₂ →
    P _ (inList counted m₁) (inList counted m₂)
  inStmt : ∀ pos {m₁ m₂ : EmitM (String × Bool)}, P _ m₁ m₂ → P _ (inStmt pos m₁) (inStmt pos m₂)
  inAutoescape : ∀ enabled {m₁ m₂ : EmitM String}, P String m₁ m₂ →
    P String (inAutoescape enabled m₁) (inAutoescape enabled m₂)

variable {U : Use → Prop} {Q : Stmt → Prop} {env₁ env₂ : Env}
  {P : (α : Type) → EmitM α → EmitM α → Prop}

section
variable (H : Lockstep U Q env₁ env₂ P)
include H

/-! ### Statements without a body -/

theorem echo_lockstep (e : Option Expr) (hx : Q (.echo e)) :
    P String (echo env₁ e) (echo env₂ e) := by
  refine required_bind_on H.toCongruenceOn .expr e fun e he => ?_
  refine H.bind (expr_on H.toCongruenceOn e (H.uses hx e he)) fun code => ?_
  split
  · exact H.pure _
  · refine H.look fun s t h => ?_
    rw [h.autoescape]
    split <;> exact H.pure _

theorem includeView_lockstep (path params : Option Expr) (hx : Q (.including path params)) :
    P String (includeView env₁ path params) (includeView env₂ path params) := by
  have huses := H.uses hx
  simp only [Stmt.exprs, List.forall_mem_append] at huses
  refine required_bind_on H.toCongruenceOn .path path fun e he => ?_
  have hpath := expr_on H.toCongruenceOn e (huses.1 e he)
  split
  · rename_i p
    have hp : path = some (.str p) := Option.mem_toList.1 he
    exact H.included p (hp ▸ hx)
  · exact H.bind hpath fun _ => H.pure _
  · rename_i params
    have hparams := expr_on H.toCongruenceOn params (huses.2 params List.mem_cons_self)
    exact H.bind hpath fun _ => H.bind hparams fun _ => H.pure _

/-! ### Statement lists and loops -/

theorem sequence_lockstep (mode : Mode) (isEmpty : Bool)
    {emit₁ emit₂ : Bool → EmitM (String × Bool)} (h : ∀ r, P _ (emit₁ r) (emit₂ r)) :
    P String (sequence mode isEmpty emit₁) (sequence mode isEmpty emit₂) := by
  unfold sequence
  split
  · exact H.pure _
  · refine H.look fun s t hst => ?_
    rw [hst.extended]
    refine H.bind (H.inList _ (h _)) ?_
    rintro ⟨code, registering⟩
    refine H.look fun s t hst => ?_
    dsimp only
    rw [hst.blockLevel]
    split
    · exact H.bind (H.segment code) fun _ => H.pure _
    · exact H.pure _

theorem place_lockstep (registering : Bool) (code : String) (x : Stmt)
    (hx : ∀ y ∈ x.statements, Q y) {emit₁ emit₂ : EmitM String} (h : P String emit₁ emit₂) :
    P _ (place registering code x emit₁) (place registering code x emit₂) := by
  unfold place
  split
  · rename_i name body
    refine H.bind (H.segment code) fun _ => ?_
    exact H.bind (H.register name body hx) fun _ => H.pure _
  · exact H.bind h fun _ => H.pure _

theorem step_lockstep (n : Node) (hn : ∀ y ∈ n.stmt.statements, Q y) (registering : Bool)
    (code : String) {emit₁ emit₂ : EmitM String} (h : P String emit₁ emit₂) :
    P _ (step env₁ n registering code emit₁) (step env₂ n registering code emit₂) := by
  refine H.inStmt n.pos ?_
  rw [H.statement]
  split
  · exact H.pure _
  · exact place_lockstep H registering code n.stmt hn h

theorem turn_lockstep (target : String) (key : Option String) (iterable : Expr)
    (guard : Option Expr)
    (branched : Bool) (hiterable : ∀ u ∈ iterable.uses, U u)
    (hguard : ∀ e ∈ guard.toList, ∀ u ∈ e.uses, U u)
    {body₁ body₂ : EmitM String} (h : P String body₁ body₂) :
    P String (turn env₁ target key iterable guard branched body₁)
      (turn env₂ target key iterable guard branched body₂) := by
  refine H.look fun s t hst => ?_
  rw [hst.loopLevel]
  refine H.bind H.loopStem fun stem =>
    H.bind (expr_on H.toCongruenceOn iterable hiterable) fun source => ?_
  refine H.bind (H.clearLoop _) fun _ => H.bind (H.noteBranch _ _ _) fun _ => ?_
  refine H.bind (expr?_on H.toCongruenceOn guard hguard) fun guard => H.bind h fun body => ?_
  exact H.bind (H.takeRecorded _) fun recorded => H.pure _

theorem loop_lockstep (target : String) (key : Option String) (iterable : Expr)
    (guard : Option Expr)
    (branched : Bool) (hiterable : ∀ u ∈ iterable.uses, U u)
    (hguard : ∀ e ∈ guard.toList, ∀ u ∈ e.uses, U u)
    {body₁ body₂ : EmitM String} (h : P String body₁ body₂) :
    P String (loop env₁ target key iterable guard branched body₁)
      (loop env₂ target key iterable guard branched body₂) := by
  exact H.inLoop (turn_lockstep H target key iterable guard branched hiterable hguard h)

end

/-! ### Statements -/

mutual

/-- The emissions of a statement are related, if it and those in its bodies are in `Q`. -/
theorem stmt_lockstep (H : Lockstep U Q env₁ env₂ P) (mode : Mode) :
    ∀ x : Stmt, (∀ y ∈ x.statements, Q y) →
    P String (stmt env₁ mode x) (stmt env₂ mode x)
  | .text _, _ | .caseDefault, _ | .continueLoop, _ | .breakLoop, _ => by
    rw [stmt, stmt]; exact H.pure _
  | .echo e, h => by rw [stmt, stmt]; exact echo_lockstep H e (h _ (Stmt.mem_statements _))
  | .ifThen condition body elseBody, h => by
    rw [stmt, stmt]
    have huses := H.uses (h _ (Stmt.mem_statements _))
    simp only [Stmt.statements, List.forall_mem_cons, List.forall_mem_append] at h
    refine operand_on H.toCongruenceOn _ _ huses fun _ => ?_
    refine H.bind (sequence_lockstep H mode _ fun r => nodes_lockstep H mode body h.2.1 r "")
      fun _ => ?_
    exact H.bind (elseCode_lockstep H mode elseBody h.2.2) fun _ => H.pure _
  | .elseIf _, h | .caseOf _, h | .evaluate _, h | .returning _, h => by
    rw [stmt, stmt]
    exact operand_on H.toCongruenceOn _ _ (H.uses (h _ (Stmt.mem_statements _))) fun _ => H.pure _
  | .switchOn subject cases, h => by
    rw [stmt, stmt]
    have huses := H.uses (h _ (Stmt.mem_statements _))
    simp only [Stmt.statements, List.forall_mem_cons] at h
    refine operand_on H.toCongruenceOn _ _ huses fun _ => ?_
    exact H.bind (sequence_lockstep H mode _ fun r => nodes_lockstep H mode cases h.2 r "") fun _ =>
      H.pure _
  | .forIn target key iterable guard body, h => by
    rw [stmt, stmt]
    have huses := H.uses (h _ (Stmt.mem_statements _))
    simp only [Stmt.statements, List.forall_mem_cons] at h
    simp only [Stmt.exprs, List.forall_mem_append] at huses
    refine required_bind_on H.toCongruenceOn _ _ fun e he => ?_
    refine loop_lockstep H target key e guard _ (huses.1 e he) huses.2 ?_
    exact sequence_lockstep H mode _ fun r => nodes_lockstep H mode body h.2 r ""
  | .forElse, _ => by rw [stmt, stmt]; exact H.forElse
  | .assign as, h => by
    rw [stmt, stmt]
    exact assign_on H.toCongruenceOn as (H.uses (h _ (Stmt.mem_statements _)))
  | .block _ body, h => by
    rw [stmt, stmt]
    simp only [Stmt.statements, List.forall_mem_cons] at h
    exact sequence_lockstep H mode _ fun r => nodes_lockstep H mode body h.2 r ""
  | .extending path, h => by
    rw [stmt, stmt]
    exact H.bind (H.extendView path (h _ (Stmt.mem_statements _))) fun _ => H.pure _
  | .including path params, h => by
    rw [stmt, stmt]
    exact includeView_lockstep H path params (h _ (Stmt.mem_statements _))
  | .macroDef name params body, h => by
    rw [stmt, stmt]
    have huses := H.uses (h _ (Stmt.mem_statements _))
    simp only [Stmt.statements, List.forall_mem_cons] at h
    refine H.bind (H.defineMacro name) fun _ =>
      H.bind (parameters_on H.toCongruenceOn name 0 params huses) fun _ => ?_
    exact H.bind (sequence_lockstep H mode _ fun r => nodes_lockstep H mode body h.2 r "") fun _ =>
      H.pure _
  | .autoescape enabled body, h => by
    rw [stmt, stmt]
    simp only [Stmt.statements, List.forall_mem_cons] at h
    refine H.bind (H.required _ _) fun _ => H.inAutoescape _ ?_
    exact sequence_lockstep H mode _ fun r => nodes_lockstep H mode body h.2 r ""
  | .cached key lifetime body, h => by
    rw [stmt, stmt]
    have huses := H.uses (h _ (Stmt.mem_statements _))
    simp only [Stmt.statements, List.forall_mem_cons] at h
    simp only [Stmt.exprs, List.forall_mem_append] at huses
    refine operand_on H.toCongruenceOn _ _ huses.1 fun _ => ?_
    refine H.bind (expr?_on H.toCongruenceOn lifetime huses.2) fun _ => ?_
    exact H.bind (sequence_lockstep H mode _ fun r => nodes_lockstep H mode body h.2 r "") fun _ =>
      H.pure _
  | .unknown, _ => by rw [stmt, stmt]; exact H.fail _

theorem elseCode_lockstep (H : Lockstep U Q env₁ env₂ P) (mode : Mode) :
    ∀ body : Option (List Node),
    (∀ y ∈ Node.statementsOption body, Q y) →
      P String (elseCode env₁ mode body) (elseCode env₂ mode body)
  | none, _ => by rw [elseCode, elseCode]; exact H.pure _
  | some body, h => by
    rw [elseCode, elseCode]
    exact H.bind (sequence_lockstep H mode _ fun r => nodes_lockstep H mode body h r "") fun _ =>
      H.pure _

theorem nodes_lockstep (H : Lockstep U Q env₁ env₂ P) (mode : Mode) : ∀ ns : List Node,
    (∀ y ∈ Node.statements ns, Q y) → ∀ (registering : Bool) (code : String),
    P _ (nodes env₁ mode ns registering code) (nodes env₂ mode ns registering code)
  | [], _, _, _ => by rw [nodes, nodes]; exact H.pure _
  | .mk x pos :: rest, h, registering, code => by
    rw [Node.statements, List.forall_mem_append] at h
    rw [nodes, nodes]
    refine H.bind (step_lockstep H (.mk x pos) h.1 registering code (stmt_lockstep H mode x h.1)) ?_
    rintro ⟨code, registering⟩
    exact nodes_lockstep H mode rest h.2 registering code

end

theorem list_lockstep (H : Lockstep U Q env₁ env₂ P) (mode : Mode) (ns : List Node)
    (h : ∀ y ∈ Node.statements ns, Q y) : P String (list env₁ mode ns) (list env₂ mode ns) :=
  sequence_lockstep H mode _ fun r => nodes_lockstep H mode ns h r ""

end Emit
end Stencil
