/-
# Levels are left as they were found

An emission counts the lists, loops and expressions that are open, switches escaping
for a while, and forgets which block is overridden while it emits the parent's body.
All of this is put back, also by an emission that fails: what is opened is closed again
on every way out. So the counters are at rest after a whole template, and where one of
them is taken down it still holds what opening added to it.

The counters are natural numbers, so the last point has to be said of the states in which
something is closed. `inside` is what an expression emits within its own level, `turn`
what a loop does within its own, and the statements of a list are `nodes`.

Key definitions: `Emit.Nesting`, `Emit.Restores`, `Emit.inside`, `Emit.Settles`, `Emit.Grounded`.
Key theorems: `Emit.restores_stable`, `Emit.lowered_of_parts`, `Emit.inside_restores`,
`Emit.merge_settles`, `Emit.emission_levels`.
-/
import Stencil.Artifact.Compile
import Stencil.Proofs.Stable

namespace Stencil
namespace Emit

/-- What an emission changes only for a while. -/
structure Nesting where
  level : Nat
  blockLevel : Nat
  loopLevel : Nat
  exprLevel : Nat
  autoescape : Bool
  currentBlock : Option String
  deriving DecidableEq

/-- What is open in a state. -/
def State.nesting (s : State) : Nesting :=
  ⟨s.level, s.blockLevel, s.loopLevel, s.exprLevel, s.autoescape, s.currentBlock⟩

/-- From every state the emission comes back to the same nesting and the same place,
whether or not it fails. -/
def Restores {α : Type} (m : EmitM α) : Prop :=
  ∀ s, (exec m s).2.nesting = s.nesting ∧ (exec m s).2.pos = s.pos

namespace Restores

variable {α β : Type} {m : EmitM α}

theorem pure (a : α) : Restores (Pure.pure a : EmitM α) := fun _ => ⟨rfl, rfl⟩

theorem throw (e : CompileError) : Restores (MonadExcept.throw e : EmitM α) := fun _ => ⟨rfl, rfl⟩

theorem fail (env : Env) (cause : Location → CompileError) :
    Restores (Emit.fail env cause : EmitM α) :=
  fun _ => ⟨rfl, rfl⟩

theorem bind {f : α → EmitM β} (h : Restores m) (hf : ∀ a, Restores (f a)) :
    Restores (m >>= f) := by
  intro s
  have hm := h s
  rw [exec_bind]
  rcases hr : exec m s with ⟨r, t⟩
  rw [hr] at hm
  cases r with
  | error e => exact hm
  | ok a =>
    obtain ⟨hnesting, hpos⟩ := hf a t
    exact ⟨hnesting.trans hm.1, hpos.trans hm.2⟩

theorem get_bind {f : State → EmitM α} (h : ∀ s, Restores (f s)) : Restores (get >>= f) := by
  intro s
  rw [exec_bind, exec_get]
  exact h s s

theorem modify {upd : State → State} (h : ∀ s, (upd s).nesting = s.nesting ∧ (upd s).pos = s.pos) :
    Restores (modify upd) := fun s => h s

theorem onDisk (act : DiskM α) : Restores (Emit.onDisk act) := fun _ => ⟨rfl, rfl⟩

/-- A change is undone if undoing it from an equal nesting leads back. -/
theorem within {enter : State → State} {leave : State → State → State}
    (hleave : ∀ s t, t.nesting = (enter s).nesting → t.pos = (enter s).pos →
      (leave s t).nesting = s.nesting ∧ (leave s t).pos = s.pos)
    (h : Restores m) : Restores (Emit.within enter leave m) := by
  intro s
  rw [exec_within]
  exact hleave s _ (h (enter s)).1 (h (enter s)).2

theorem inExpr (h : Restores m) : Restores (Emit.inExpr m) := by
  refine within (fun s t hn hp => ⟨?_, hp⟩) h
  simp only [State.nesting, Nesting.mk.injEq] at hn ⊢
  simp [hn]

theorem inLoop (h : Restores m) : Restores (Emit.inLoop m) := by
  refine within (fun s t hn hp => ⟨?_, hp⟩) h
  simp only [State.nesting, Nesting.mk.injEq] at hn ⊢
  simp [hn]

theorem inList (counted : Bool) (h : Restores m) : Restores (Emit.inList counted m) := by
  refine within (fun s t hn hp => ⟨?_, hp⟩) h
  simp only [State.nesting, Nesting.mk.injEq] at hn ⊢
  simp [hn]

theorem inStmt (pos : Position) (h : Restores m) : Restores (Emit.inStmt pos m) :=
  within (fun _ _ hn _ => ⟨hn, rfl⟩) h

theorem inAutoescape (enabled : Bool) (h : Restores m) :
    Restores (Emit.inAutoescape enabled m) := by
  refine within (fun s t hn hp => ⟨?_, hp⟩) h
  simp only [State.nesting, Nesting.mk.injEq] at hn ⊢
  simp [hn]

theorem outsideBlock (h : Restores m) : Restores (Emit.outsideBlock m) := by
  refine within (fun s t hn hp => ⟨?_, hp⟩) h
  simp only [State.nesting, Nesting.mk.injEq] at hn ⊢
  simp [hn]

end Restores

/-- Everything a statement does is undone. -/
theorem restores_stable {env : Env} (hsuper : Restores env.superBlock) :
    Stable env (fun _ m => Restores m) fun _ => True where
  pure := .pure
  throw := .throw
  fail := .fail env
  bind := .bind
  get_bind := .get_bind
  note h := .modify fun s => by rw [h s]; exact ⟨rfl, rfl⟩
  onDisk := .onDisk
  extend _ := .modify fun _ => ⟨rfl, rfl⟩
  append _ := .modify fun _ => ⟨rfl, rfl⟩
  register _ _ _ := .modify fun _ => ⟨rfl, rfl⟩
  inExpr := .inExpr
  inLoop := .inLoop
  inList counted _ := .inList counted
  inStmt pos _ := .inStmt pos
  inAutoescape enabled _ := .inAutoescape enabled
  super := hsuper

/-! ### Expressions -/

section
variable (env : Env)

/-- What an expression emits within its own level. -/
def inside (e : Expr) : EmitM String := asked env e (lowered env e)

/-- An expression opens one level and closes it again. -/
theorem expr_eq_inExpr (e : Expr) : expr env e = inExpr (inside env e) := rfl

end

/-- The environment in which the parent's block is no code at all. -/
def Env.mute (env : Env) : Env := { env with superBlock := pure "" }

section
variable {env₁ env₂ : Env} {P : (α : Type) → EmitM α → EmitM α → Prop}
  (H : Congruence env₁.mute env₂.mute P) (hexpr : ∀ e, P String (expr env₁ e) (expr env₂ e))
include H hexpr

theorem args_of_parts (as : List Arg) : P (List String) (args env₁ as) (args env₂ as) := by
  induction as with
  | nil =>
    rw [args, args]
    exact H.pure _
  | cons a rest ih =>
    obtain ⟨e, name⟩ := a
    rw [args, args]
    exact H.bind (hexpr e) fun _ => H.bind ih fun _ => H.pure _

theorem operands_of_parts (e : Expr) : P (List String) (operands env₁ e) (operands env₂ e) := by
  cases e with
  | call _ as =>
    rw [operands, operands]
    exact args_of_parts H hexpr as
  | _ =>
    simp only [operands]
    exact H.pure _

theorem glue_of_parts (e : Expr) : P String (glue env₁ e) (glue env₂ e) := by
  unfold glue
  split
  · exact hexpr _
  · exact H.pure _

theorem exprOrNull_of_parts (e : Option Expr) :
    P String (exprOrNull env₁ e) (exprOrNull env₂ e) := by
  cases e with
  | none =>
    rw [exprOrNull, exprOrNull]
    exact H.pure _
  | some e =>
    rw [exprOrNull, exprOrNull]
    exact hexpr e

/-- What an expression emits within its own level is related if its parts are. Calls of the
parent's block matter only where the expression is one. -/
theorem lowered_of_parts (e : Expr)
    (hsuper : e.isSuper = true → P String env₁.superBlock env₂.superBlock) :
    P String (lowered env₁ e) (lowered env₂ e) := by
  have hargs := args_of_parts H hexpr
  have hoperands := operands_of_parts H hexpr
  have hoption := exprOrNull_of_parts H hexpr
  have htest := fun test l => testCode_related H test l (hoperands test) (hexpr test)
  cases e with
  | integer _ | double _ | str _ | bool _ | null | resolved _ => exact H.pure _
  | var name => exact H.identifier name
  | property object attr =>
    refine H.bind (objectCode_related H object (hexpr object)) fun _ => ?_
    exact H.bind (attrCode_related H attr (hexpr attr)) fun _ => H.pure _
  | index object index =>
    exact H.bind (hexpr object) fun _ => H.bind (hexpr index) fun _ => H.pure _
  | binary _ left right => exact H.bind (hexpr left) fun _ => H.bind (hexpr right) fun _ => H.pure _
  | unary _ operand => exact H.bind (hexpr operand) fun _ => H.pure _
  | call callee arguments =>
    refine H.bind (hargs arguments) fun given => ?_
    cases callee with
    | var name =>
      have hhandled := H.function name (Code.commas given) arguments
      have hfunctions : env₁.compiler.functions = env₂.compiler.functions := H.functions
      dsimp only [Env.mute] at hhandled
      show P String (callNamed env₁ name (Code.commas given) arguments)
        (callNamed env₂ name (Code.commas given) arguments)
      unfold callNamed
      rw [hhandled, hfunctions]
      split
      · exact H.pure _
      · split
        · exact H.ofExcept _
        · split
          · rename_i hname
            exact hsuper (by simp [Expr.isSuper, hname])
          · exact H.pure _
    | _ => exact H.bind (hexpr _) fun _ => H.pure _
  | filter left filter =>
    refine H.bind (hexpr left) fun l => ?_
    exact filterCode_related H filter l (hoperands filter) (glue_of_parts H hexpr filter)
  | is left test => exact H.bind (hexpr left) fun l => htest test l
  | isNot left test => exact H.bind (hexpr left) fun l => H.bind (htest test l) fun _ => H.pure _
  | ternary condition yes no =>
    exact H.bind (hexpr condition) fun _ => H.bind (hexpr yes) fun _ =>
      H.bind (hexpr no) fun _ => H.pure _
  | slice object start stop =>
    exact H.bind (hexpr object) fun _ => H.bind (hoption start) fun _ =>
      H.bind (hoption stop) fun _ => H.pure _
  | array items => exact H.bind (hargs items) fun _ => H.pure _
  | enclosed inner => exact H.bind (hexpr inner) fun _ => H.pure _
  | unknown => exact H.fail _

end

section
variable {env : Env} (hsuper : Restores env.superBlock)
include hsuper

theorem lowered_restores (e : Expr) : Restores (lowered env e) := by
  have hmute : Restores env.mute.superBlock := .pure ""
  have H : Congruence env.mute env.mute fun _ m _ => Restores m :=
    (restores_stable hmute).congruence
  exact lowered_of_parts H (expr_stable (restores_stable hsuper)) e fun _ => hsuper

theorem inside_restores (e : Expr) : Restores (inside env e) := by
  unfold inside asked
  split
  · exact .pure _
  · exact lowered_restores hsuper e

end

theorem list_restores {env : Env} (hsuper : Restores env.superBlock) (mode : Mode)
    (ns : List Node) :
    Restores (list env mode ns) := list_stable (restores_stable hsuper) mode fun _ _ _ => trivial

theorem bodyCode_restores {env : Env} (hsuper : Restores env.superBlock) (body : BlockBody) :
    Restores (bodyCode env body) := by
  cases body with
  | code code => exact .pure code
  | nodes ns => exact list_restores hsuper .page ns

/-! ### Whole templates -/

/-- The parent's body is emitted with no block overridden; the block that is comes back. -/
theorem superCode_restores {inner : Env} (hsuper : Restores inner.superBlock) :
    Restores (superCode inner) := by
  have shown : ∀ code : String, Restores (do
      if (← get).exprLevel == 1 then return code else return "'" ++ Text.slashed code ++ "'") := by
    intro code
    refine .get_bind fun s => ?_
    split <;> exact .pure _
  refine .get_bind fun s => ?_
  dsimp only
  split
  · exact .pure _
  · split
    · exact (Restores.pure _).bind shown
    · exact (Restores.outsideBlock (list_restores hsuper .page _)).bind shown

/-- Whichever body is emitted, a call of the parent's block leaves the levels alone. -/
theorem superBlock_restores {c : Compiler} {source : String} {nested : String → Mode → DiskM Output}
    {env : Env} (henv : env = .inner c source nested ∨ env = .outer c source nested) :
    Restores env.superBlock := by
  have hinner : Restores (Env.inner c source nested).superBlock := .pure _
  rcases henv with rfl | rfl
  · exact hinner
  · exact superCode_restores hinner

/-- From a state at rest the emission comes to one at rest. -/
def Settles {α : Type} (m : EmitM α) : Prop := ∀ s : State, s.Balanced → (exec m s).2.Balanced

namespace Settles

variable {α β : Type} {m : EmitM α}

theorem of_restores (h : Restores m) : Settles m := by
  intro s hs
  have hn := (h s).1
  simp only [State.nesting, Nesting.mk.injEq] at hn
  simpa [State.Balanced, hn] using hs

theorem pure (a : α) : Settles (Pure.pure a : EmitM α) := .of_restores (.pure a)

theorem bind {f : α → EmitM β} (h : Settles m) (hf : ∀ a, Settles (f a)) : Settles (m >>= f) := by
  intro s hs
  have hm := h s hs
  rw [exec_bind]
  rcases hr : exec m s with ⟨r, t⟩
  rw [hr] at hm
  cases r with
  | error e => exact hm
  | ok a => exact hf a t hm

theorem get_bind {f : State → EmitM α} (h : ∀ s, Settles (f s)) : Settles (get >>= f) := by
  intro s hs
  rw [exec_bind, exec_get]
  exact h s s hs

end Settles

section
variable {env : Env} (hsuper : Restores env.superBlock)
include hsuper

/-- Merging says which block is overridden, but opens nothing itself. -/
theorem mergeEntries_settles (own : BlockMap) :
    ∀ entries : List (BlockKey × BlockBody), Settles (mergeEntries env own entries)
  | [] => by rw [mergeEntries]; exact .pure _
  | (key, inherited) :: rest => by
    have hblock : ∀ block, Settles (modify fun s => { s with currentBlock := block }) :=
      fun _ _ hs => hs
    rw [mergeEntries]
    refine (hblock _).bind fun _ =>
      (Settles.of_restores (bodyCode_restores hsuper _)).bind fun _ => ?_
    exact (mergeEntries_settles own rest).bind fun _ => .pure _

theorem merge_settles : Settles (merge env) :=
  .get_bind fun s _ ht => mergeEntries_settles hsuper s.blocks _ _ ht

theorem page_settles (t : Template) : Settles (page env t) := by
  refine (Settles.of_restores (list_restores hsuper .page t)).bind fun code => .get_bind fun s => ?_
  split
  · exact (merge_settles hsuper).bind fun _ => .pure _
  · exact .pure _

theorem layout_settles (t : Template) : Settles (layout env t) := by
  refine (Settles.of_restores (list_restores hsuper .layout t)).bind fun _ => .get_bind fun s => ?_
  split
  · exact (merge_settles hsuper).bind fun _ => .pure _
  · exact .get_bind fun _ => .pure _

end

/-! ### Closing -/

/-- No counter is taken below zero. Expressions and loops stand within a level that they
open, and statements within the levels of their list. Wherever one of these is closed,
the counter holds at least what is taken from it. -/
structure Grounded (env : Env) : Prop where
  expr_opens : ∀ e, expr env e = inExpr (inside env e)
  loop_opens : ∀ target key iterable guard branched body,
    loop env target key iterable guard branched body =
      inLoop (turn env target key iterable guard branched body)
  list_opens : ∀ mode ns, list env mode ns = sequence mode ns.isEmpty fun r =>
    nodes env mode ns r ""
  expr_closes : ∀ e (s : State),
    1 ≤ (exec (inside env e) { s with exprLevel := s.exprLevel + 1 }).2.exprLevel
  loop_closes : ∀ target key iterable guard branched mode body (s : State),
    1 ≤ (exec (turn env target key iterable guard branched (list env mode body))
      { s with loopLevel := s.loopLevel + 1 }).2.loopLevel
  list_closes : ∀ mode ns counted (s : State),
    1 ≤ (exec (nodes env mode ns counted "")
      { s with level := s.level + 1, blockLevel := s.blockLevel + counted.toNat }).2.level ∧
    counted.toNat ≤ (exec (nodes env mode ns counted "")
      { s with level := s.level + 1, blockLevel := s.blockLevel + counted.toNat }).2.blockLevel

theorem grounded {env : Env} (hsuper : Restores env.superBlock) : Grounded env where
  expr_opens := expr_eq_inExpr env
  loop_opens _ _ _ _ _ _ := rfl
  list_opens _ _ := rfl
  expr_closes e s := by
    have h := congrArg Nesting.exprLevel
      (inside_restores hsuper e { s with exprLevel := s.exprLevel + 1 }).1
    simp only [State.nesting] at h
    omega
  loop_closes target key iterable guard branched mode body s := by
    have hturn : Restores (turn env target key iterable guard branched (list env mode body)) :=
      turn_stable (restores_stable hsuper) target key iterable guard branched
        (list_restores hsuper mode body)
    have h := congrArg Nesting.loopLevel (hturn { s with loopLevel := s.loopLevel + 1 }).1
    simp only [State.nesting] at h
    omega
  list_closes mode ns counted s := by
    have hnodes : Restores (nodes env mode ns counted "") :=
      nodes_stable (restores_stable hsuper) mode ns (fun _ _ _ => trivial) counted ""
    have h := (hnodes { s with level := s.level + 1, blockLevel := s.blockLevel + counted.toNat }).1
    simp only [State.nesting, Nesting.mk.injEq] at h
    omega

/-- **Levels are left as they were found.** A statement list in either mode, and an
expression, leave the counters, the switch of escaping and the overridden block as they
find them, whether or not they fail; when they succeed, the place too. No counter is
taken below zero, and after a whole template all of them are at rest. -/
theorem emission_levels (c : Compiler) (source : String) (nested : String → Mode → DiskM Output)
    {env : Env} (henv : env = .inner c source nested ∨ env = .outer c source nested) :
    (∀ mode ns s, (exec (list env mode ns) s).2.nesting = s.nesting ∧
      ∀ code, (exec (list env mode ns) s).1 = .ok code →
      (exec (list env mode ns) s).2.pos = s.pos) ∧
    (∀ e s, (exec (expr env e) s).2.nesting = s.nesting ∧
      ∀ code, (exec (expr env e) s).1 = .ok code → (exec (expr env e) s).2.pos = s.pos) ∧
    Grounded env ∧
    ∀ t d, (exec (page env t) (.initial c.options.autoescape d)).2.Balanced ∧
      (exec (layout env t) (.initial c.options.autoescape d)).2.Balanced := by
  have hsuper := superBlock_restores henv
  have hrest : ∀ autoescape d, (State.initial autoescape d).Balanced :=
    fun _ _ => ⟨rfl, rfl, rfl, rfl⟩
  refine ⟨fun mode ns s => ?_, fun e s => ?_, grounded hsuper, fun t d => ?_⟩
  · obtain ⟨hnesting, hpos⟩ := list_restores hsuper mode ns s
    exact ⟨hnesting, fun _ _ => hpos⟩
  · have hexpr : Restores (expr env e) := expr_stable (restores_stable hsuper) e
    obtain ⟨hnesting, hpos⟩ := hexpr s
    exact ⟨hnesting, fun _ _ => hpos⟩
  · exact ⟨page_settles hsuper t _ (hrest _ d), layout_settles hsuper t _ (hrest _ d)⟩

namespace Attic

/-- A loop with escaping on, in which something unknown stands. -/
def rooms : List Node :=
  [.mk (.forIn "x" none (some (.var "xs")) none
    [.mk (.autoescape (some true) [.mk .unknown ⟨none, some 7⟩]) .unknown]) .unknown]

/-- Loop variables start with `v`. -/
def compiler : Compiler := Compiler.initial.setStem fun _ => "v"

/-- The environment of the attic. -/
def env : Env := .outer compiler "attic" compiler.nested

/-- In the middle of an override, some lists, a loop and an expression are open. -/
def opened : State :=
  { State.initial false .empty with
    level := 3, blockLevel := 1, loopLevel := 1, exprLevel := 1, currentBlock := some "roof" }

end Attic

/-- An emission that fails in a loop closes the loop, its lists and the switch. -/
theorem emission_levels_attic :
    (exec (list Attic.env .page Attic.rooms) Attic.opened).1 =
        .error (.unknownStatement ⟨"attic", some 7⟩) ∧
      (exec (list Attic.env .page Attic.rooms) Attic.opened).2.nesting =
        ⟨3, 1, 1, 1, false, some "roof"⟩ ∧
      (exec (page Attic.env Attic.rooms) (.initial false .empty)).2.Balanced := by
  have henv : Attic.env = .outer Attic.compiler "attic" Attic.compiler.nested := rfl
  obtain ⟨hlist, -, -, hwhole⟩ := emission_levels _ _ _ (.inr henv)
  exact ⟨by rfl, (hlist .page Attic.rooms Attic.opened).1, (hwhole Attic.rooms .empty).1⟩

end Emit
end Stencil
