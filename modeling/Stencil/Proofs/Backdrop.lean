/-
# What emissions leave alone

Outside of overridden blocks an expression reads nothing of the blocks registered so
far, of the parent's blocks and of the open statement lists, and leaves them as they
are: they are a backdrop. Everything else an emission changes it changes back, but for
the macros, the record of loops, the loop stem and the disk.

Key definitions: `Emit.Backdrop`, `Emit.Kept`, `Emit.Bracket`, `Emit.Silent`.
Key theorems: `Emit.Silent.bind`, `Emit.expr_silent`, `Emit.echo_silent`.
-/
import Stencil.Proofs.BlockOrder
import Stencil.Proofs.Congruence
import Stencil.Proofs.Exec

namespace Stencil
namespace Emit

/-- The part of the state that is behind an expression. -/
structure Backdrop where
  blocks : BlockMap
  level : Nat
  blockLevel : Nat
  parent : Option BlockMap

/-- The state before another backdrop. -/
def State.over (s : State) (b : Backdrop) : State :=
  { s with blocks := b.blocks, level := b.level, blockLevel := b.blockLevel, parent := b.parent }

/-- The backdrop of a state. -/
def State.backdrop (s : State) : Backdrop := ⟨s.blocks, s.level, s.blockLevel, s.parent⟩

/-- The states differ only in what has been defined, recorded and written to the disk. -/
def Kept (s t : State) : Prop :=
  t = { s with
    macros := t.macros, recorded := t.recorded, branches := t.branches, stem := t.stem, disk := t.disk }

namespace Kept

variable {s t u : State}

theorem refl (s : State) : Kept s s := rfl

theorem trans (h : Kept s t) (h' : Kept t u) : Kept s u := by
  unfold Kept at h h' ⊢
  rw [h', h]

theorem currentBlock (h : Kept s t) : t.currentBlock = s.currentBlock := by rw [h]

theorem extended (h : Kept s t) : t.extended = s.extended := by rw [h]

theorem autoescape (h : Kept s t) : t.autoescape = s.autoescape := by rw [h]

theorem pos (h : Kept s t) : t.pos = s.pos := by rw [h]

end Kept

/-- A change of the state that is undone afterwards. It leaves the backdrop alone, and the
blocks that are overridden and extended. -/
structure Bracket (enter : State → State) (leave : State → State → State) : Prop where
  enter_over : ∀ s b, enter (s.over b) = (enter s).over b
  leave_over : ∀ s t b b', leave (s.over b) (t.over b') = (leave s t).over b'
  currentBlock : ∀ s, (enter s).currentBlock = s.currentBlock
  extended : ∀ s, (enter s).extended = s.extended
  kept : ∀ {s t}, Kept (enter s) t → Kept s (leave s t)

theorem bracket_expr : Bracket (fun s => { s with exprLevel := s.exprLevel + 1 })
    (fun _ s => { s with exprLevel := s.exprLevel - 1 }) where
  enter_over := fun _ _ => rfl
  leave_over := fun _ _ _ _ => rfl
  currentBlock := fun _ => rfl
  extended := fun _ => rfl
  kept := fun hkept => by
    unfold Kept at hkept ⊢
    rw [hkept]
    rfl

theorem bracket_loop : Bracket (fun s => { s with loopLevel := s.loopLevel + 1 })
    (fun _ s => { s with loopLevel := s.loopLevel - 1 }) where
  enter_over := fun _ _ => rfl
  leave_over := fun _ _ _ _ => rfl
  currentBlock := fun _ => rfl
  extended := fun _ => rfl
  kept := fun hkept => by
    unfold Kept at hkept ⊢
    rw [hkept]
    rfl

theorem bracket_stmt (pos : Position) : Bracket (fun s => { s with pos := pos })
    (fun before s => { s with pos := before.pos }) where
  enter_over := fun _ _ => rfl
  leave_over := fun _ _ _ _ => rfl
  currentBlock := fun _ => rfl
  extended := fun _ => rfl
  kept := fun hkept => by
    unfold Kept at hkept ⊢
    rw [hkept]

theorem bracket_autoescape (enabled : Bool) : Bracket (fun s => { s with autoescape := enabled })
    (fun before s => { s with autoescape := before.autoescape }) where
  enter_over := fun _ _ => rfl
  leave_over := fun _ _ _ _ => rfl
  currentBlock := fun _ => rfl
  extended := fun _ => rfl
  kept := fun hkept => by
    unfold Kept at hkept ⊢
    rw [hkept]

/-- Where no block is overridden, the emission does the same before all backdrops and
leaves them alone. -/
def Silent {α : Type} (m : EmitM α) : Prop :=
  ∀ s : State, s.currentBlock = none → ∃ r t, Kept s t ∧ ∀ b, exec m (s.over b) = (r, t.over b)

namespace Silent

variable {α β : Type} {m : EmitM α}

theorem pure (a : α) : Silent (Pure.pure a : EmitM α) := fun s _ => ⟨.ok a, s, .refl s, fun _ => rfl⟩

theorem throw (e : CompileError) : Silent (MonadExcept.throw e : EmitM α) :=
  fun s _ => ⟨.error e, s, .refl s, fun _ => rfl⟩

theorem bind {f : α → EmitM β} (h : Silent m) (hf : ∀ a, Silent (f a)) : Silent (m >>= f) := by
  intro s hs
  obtain ⟨r, t, hkept, hm⟩ := h s hs
  cases r with
  | error e =>
    refine ⟨.error e, t, hkept, fun b => ?_⟩
    rw [exec_bind, hm b]
  | ok a =>
    obtain ⟨r, u, hkept', hfa⟩ := hf a t (hkept.currentBlock.trans hs)
    refine ⟨r, u, hkept.trans hkept', fun b => ?_⟩
    rw [exec_bind, hm b]
    exact hfa b

/-- The state may be read, but for the backdrop. -/
theorem get_bind {f : State → EmitM α} (hf : ∀ s b, f (s.over b) = f s) (h : ∀ s, Silent (f s)) :
    Silent (get >>= f) := by
  intro s hs
  obtain ⟨r, t, hkept, hfs⟩ := h s s hs
  refine ⟨r, t, hkept, fun b => ?_⟩
  rw [exec_bind, exec_get]
  dsimp only
  rw [hf]
  exact hfs b

theorem modify {upd : State → State} (hkept : ∀ s, Kept s (upd s))
    (hupd : ∀ s b, upd (s.over b) = (upd s).over b) : Silent (modify upd) := by
  intro s _
  refine ⟨.ok ⟨⟩, upd s, hkept s, fun b => ?_⟩
  rw [exec_modify, hupd]

theorem onDisk (act : DiskM α) : Silent (Emit.onDisk act) :=
  fun s _ => ⟨(exec act s.disk).1, { s with disk := (exec act s.disk).2 }, rfl, fun _ => rfl⟩

theorem inExpr (h : Silent m) : Silent (Emit.inExpr m) := by
  intro s hs
  obtain ⟨r, t, hkept, hm⟩ := h { s with exprLevel := s.exprLevel + 1 } hs
  refine ⟨r, { t with exprLevel := t.exprLevel - 1 }, bracket_expr.kept hkept, fun b => ?_⟩
  unfold Emit.inExpr
  rw [exec_within, bracket_expr.enter_over, hm b]
  rfl

end Silent

section
variable {env : Env}

theorem fail_silent {α : Type} (cause : Location → CompileError) : Silent (fail env cause : EmitM α) :=
  fun s _ => ⟨.error (cause (.of s.pos env.source)), s, .refl s, fun _ => rfl⟩

theorem loopStem_silent : Silent (loopStem env) := by
  refine .get_bind (fun _ _ => rfl) fun s => ?_
  dsimp only
  split
  · exact .pure _
  · split
    · exact Silent.bind (.modify (fun _ => rfl) fun _ _ => rfl) fun _ => .pure _
    · exact .throw _

theorem clearLoop_silent (depth : Nat) : Silent (modify (·.clearLoop depth)) :=
  .modify (fun _ => rfl) fun _ _ => rfl

theorem noteBranch_silent (depth : Nat) (branch : Branch) (branched : Bool) :
    Silent (noteBranch depth branch branched) := by
  unfold noteBranch
  split
  · exact .modify (fun _ => rfl) fun _ _ => rfl
  · exact .pure _

theorem takeRecorded_silent (depth : Nat) : Silent (takeRecorded depth) :=
  .get_bind (fun _ _ => rfl) fun _ => (clearLoop_silent depth).bind fun _ => .pure _

theorem identifier_silent (name : String) : Silent (identifier env name) := by
  refine .get_bind (fun _ _ => rfl) fun s => ?_
  dsimp only
  split
  · refine Silent.bind (.modify (fun _ => rfl) fun _ _ => rfl) fun _ => ?_
    exact loopStem_silent.bind fun _ => .pure _
  · split <;> exact .pure _

end

/-- Outside of overridden blocks there is no block of the parent to call. -/
def Env.Quiet (env : Env) : Prop :=
  ∀ s : State, s.currentBlock = none → exec env.superBlock s = (.ok "''", s)

theorem exec_superCode_none (env : Env) {s : State} (h : s.currentBlock = none) :
    exec (superCode env) s = (.ok "''", s) := by
  unfold superCode
  rw [exec_bind, exec_get]
  dsimp only
  rw [h]
  rfl

theorem quiet_outer (c : Compiler) (source : String) (nested : String → Mode → DiskM Output) :
    (Env.outer c source nested).Quiet := fun _ hs => exec_superCode_none _ hs

section
variable {env : Env} (hquiet : env.Quiet)
include hquiet

theorem silent_congruence : Congruence env env fun _ m _ => Silent m where
  pure := .pure
  throw := .throw
  bind := .bind
  inExpr := .inExpr
  fail := fail_silent
  identifier := identifier_silent
  super := fun s hs => ⟨_, s, .refl s, fun b => hquiet (s.over b) hs⟩
  expression _ := rfl
  function _ _ _ := rfl
  filter _ _ _ := rfl
  functions := rfl
  filters := rfl

theorem expr_silent (e : Expr) : Silent (expr env e) := expr_related (silent_congruence hquiet) e

theorem expr?_silent (e : Option Expr) : Silent (expr? env e) := expr?_related (silent_congruence hquiet) e

theorem operand_silent {β : Type} (part : Stmt.Part) (e : Option Expr) {f : String → EmitM β}
    (hf : ∀ code, Silent (f code)) : Silent (required env part e >>= fun e => expr env e >>= f) :=
  @operand_related env env (fun _ m _ => Silent m) (silent_congruence hquiet) β part e f f hf

theorem echo_silent (e : Option Expr) : Silent (echo env e) := by
  unfold echo
  refine (required_related (silent_congruence hquiet) _ e).bind fun e => (expr_silent hquiet e).bind fun code => ?_
  split
  · exact .pure _
  · refine .get_bind (fun _ _ => rfl) fun s => ?_
    split <;> exact .pure _

theorem includeView_silent (path params : Option Expr) : Silent (includeView env path params) := by
  unfold includeView
  refine (required_related (silent_congruence hquiet) _ path).bind fun path => ?_
  split
  · refine .get_bind (fun _ _ => rfl) fun s => ?_
    exact (Silent.onDisk _).bind fun _ => .pure _
  · exact (expr_silent hquiet path).bind fun _ => .pure _
  · exact (expr_silent hquiet path).bind fun _ => (expr_silent hquiet _).bind fun _ => .pure _

end

theorem defineMacro_silent {env : Env} (name : String) : Silent (defineMacro env name) := by
  refine .get_bind (fun _ _ => rfl) fun s => ?_
  split
  · exact fail_silent _
  · exact .modify (fun _ => rfl) fun _ _ => rfl

theorem forElse_silent : Silent forElse := by
  refine .get_bind (fun _ _ => rfl) fun s => ?_
  split <;> exact .pure _

/-! ### Registering blocks -/

theorem exec_segment (code : String) (s : State) :
    exec (segment code) s = (.ok ⟨⟩, { s with blocks := s.blocks.segment code }) := by
  unfold segment BlockMap.segment
  by_cases h : code = ""
  · rw [if_pos h, if_pos h]
    rfl
  · rw [if_neg h, if_neg h]
    rfl

/-- Where blocks are registered, a block ends the segment before it. -/
theorem exec_place_block (name : String) (body : List Node) (code : String) (emit : EmitM String) (s : State) :
    exec (place true code (.block name body) emit) s =
      (.ok ("", true), { s with blocks := (s.blocks.segment code).define name (.nodes body) }) := by
  dsimp only [place]
  rw [exec_bind, exec_segment]
  rfl

end Emit
end Stencil
