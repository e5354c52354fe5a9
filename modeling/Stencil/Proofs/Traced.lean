/-
# Emissions give scripts

A template that extends nothing is emitted where it stands, whether other templates are
taken over or not. If that succeeds, the code is the text of a script of the template.
The emission is followed from spot to spot by what is known of its state: what is open, and
for each open loop whether its record has been used and what a branch for nothing to loop
over knows of it. Loops around a statement are left as they are, and the innermost one is
recorded just where the statement uses its record.

What expressions give is a hypothesis, so that the pass over statements is made once for
all kinds of templates. A stage that is not tracked says nothing of the notes about loops.

Key definitions: `Emit.Stage`, `Emit.Stands`, `Emit.Traced`, `Emit.Stage.Sound`.
Key theorems: `Emit.Traced.bind`, `Emit.loop_traced`, `Emit.stmt_traced`, `Emit.list_traced`.
-/
import Stencil.Proofs.EmittedTree
import Stencil.Proofs.Lockstep
import Stencil.Proofs.Script

namespace Stencil
namespace Emit

open Plain (Spot)
open Script (Rules)

/-! ### What is known of the state -/

/-- What is noted of the loop at a depth: its branch, and whether it is recorded. -/
def State.noted (s : State) (depth : Nat) : Option Branch × Bool :=
  (s.branches.lookup depth, s.recorded.contains depth)

/-- What does not change while a template is emitted in place. -/
structure Stage where
  env : Env
  rules : Rules
  /-- The block that is overridden. -/
  block : Option String
  parent : Option BlockMap

/-- The state is that of the stage at a spot. Further out, `around` is noted of each loop. -/
structure Stands (K : Stage) (around : Nat → Option Branch × Bool) (k : Spot) (s : State) :
    Prop where
  autoescape : s.autoescape = k.autoescape
  depth : s.loopLevel = k.depth
  rest : s.exprLevel = 0
  block : s.currentBlock = K.block
  parent : s.parent = K.parent
  extended : s.extended = false
  stem : ∀ x, s.stem = some x → K.rules.stem x
  notes : K.rules.tracked = true →
    s.noted k.depth = (k.branch, k.used) ∧ ∀ x < k.depth, s.noted x = around x

/-- If the emission succeeds from a state at the spot `k`, its result is in `J` and it leaves
a state at the spot `k'`. -/
def Traced {α : Type} (K : Stage) (around : Nat → Option Branch × Bool) (k k' : Spot) (m : EmitM α)
    (J : α → Prop) : Prop :=
  ∀ s, Stands K around k s → ∀ a t, exec m s = (.ok a, t) → J a ∧ Stands K around k' t

/-- No extension is asked, the stem of loop variables is known, and so is what expressions
give. -/
structure Stage.Sound (K : Stage) : Prop where
  extensions : K.env.compiler.extensions = []
  stem : Compiler.isIdentifier (K.env.compiler.stemFor K.env.source) = true →
    K.rules.stem (K.env.compiler.stemFor K.env.source)
  expr : ∀ (around : Nat → Option Branch × Bool) (k : Spot) (e : Expr),
    Traced K around k (k.using e.usesLoop) (expr K.env e) fun code =>
      K.rules.term ⟨e, k.depth, code⟩

/-! ### Putting emissions together -/

section
variable {K : Stage} {around : Nat → Option Branch × Bool} {k k' k'' : Spot} {α β : Type}
  {m : EmitM α} {J : α → Prop} {L : β → Prop}

/-- Nothing is known of lists, blocks, macros, places and the disk. -/
theorem Stands.keep {s t : State} (hs : Stands K around k s)
    (h : t = { s with
      level := t.level, blockLevel := t.blockLevel, blocks := t.blocks
      macros := t.macros, pos := t.pos, disk := t.disk }) :
    Stands K around k t := by
  rw [h]
  exact ⟨hs.autoescape, hs.depth, hs.rest, hs.block, hs.parent, hs.extended, hs.stem, hs.notes⟩

theorem Traced.pure {a : α} (h : J a) : Traced K around k k (Pure.pure a : EmitM α) J := by
  intro s hs b t he
  cases he
  exact ⟨h, hs⟩

theorem Traced.fail (env : Env) (cause : Location → CompileError) :
    Traced K around k k' (Emit.fail env cause : EmitM α) J := by
  intro s _ a t he
  rw [exec_fail] at he
  cases he

theorem Traced.bind {f : α → EmitM β} (h : Traced K around k k' m J)
    (hf : ∀ a, J a → Traced K around k' k'' (f a) L) : Traced K around k k'' (m >>= f) L := by
  intro s hs b t he
  obtain ⟨a, s', hm, hfa⟩ := exec_bind_eq_ok.1 he
  obtain ⟨ha, hs'⟩ := h s hs a s' hm
  exact hf a ha s' hs' b t hfa

theorem Traced.map {f : α → β} (h : Traced K around k k' m J) (hJ : ∀ a, J a → L (f a)) :
    Traced K around k k' (f <$> m) L := by
  rw [map_eq_pure_bind]
  exact h.bind fun a ha => .pure (hJ a ha)

/-- The state may be read; of what is read, that it is one of the spot is known. -/
theorem Traced.get_bind {f : State → EmitM α}
    (h : ∀ s, Stands K around k s → Traced K around k k' (f s) J) :
    Traced K around k k' (get >>= f) J := by
  intro s hs a t he
  rw [exec_bind, exec_get] at he
  exact h s hs s hs a t he

theorem modify_traced {upd : State → State}
    (h : ∀ s, Stands K around k s → Stands K around k' (upd s)) :
    Traced K around k k' (modify upd) fun _ => True := by
  intro s hs a t he
  cases he
  exact ⟨trivial, h s hs⟩

theorem onDisk_traced (act : DiskM α) : Traced K around k k (onDisk act) fun _ => True := by
  intro s hs a t he
  rw [exec_onDisk, Prod.mk.injEq] at he
  rw [← he.2]
  exact ⟨trivial, hs.keep rfl⟩

/-- An emission in a changed state, where the change is undone. -/
theorem Traced.within {around' : Nat → Option Branch × Bool} {j : State → Spot} {j' : Spot}
    {enter : State → State} {leave : State → State → State} (h : ∀ s, Traced K around' (j s) j' m J)
    (hin : ∀ s, Stands K around k s → Stands K around' (j s) (enter s))
    (hout : ∀ s t, Stands K around k s → Stands K around' j' t → Stands K around k' (leave s t)) :
    Traced K around k k' (Emit.within enter leave m) J := by
  intro s hs a t he
  rw [exec_within, Prod.mk.injEq] at he
  obtain ⟨ha, ht⟩ := h s _ (hin s hs) a _ (Prod.ext he.1 rfl)
  rw [← he.2]
  exact ⟨ha, hout s _ hs ht⟩

theorem Traced.inList (counted : Bool) (h : Traced K around k k' m J) :
    Traced K around k k' (Emit.inList counted m) J :=
  .within (fun _ => h) (fun _ hs => hs.keep rfl) fun _ _ _ ht => ht.keep rfl

theorem Traced.inStmt (pos : Position) (h : Traced K around k k' m J) :
    Traced K around k k' (Emit.inStmt pos m) J :=
  .within (fun _ => h) (fun _ hs => hs.keep rfl) fun _ _ _ ht => ht.keep rfl

theorem Traced.inAutoescape (enabled uses : Bool)
    (h : Traced K around { k with autoescape := enabled }
      (Spot.using { k with autoescape := enabled } uses) m J) :
    Traced K around k (k.using uses) (Emit.inAutoescape enabled m) J :=
  .within (fun _ => h) (fun _ hs =>
    ⟨rfl, hs.depth, hs.rest, hs.block, hs.parent, hs.extended, hs.stem, hs.notes⟩)
    fun _ _ hs ht =>
      ⟨hs.autoescape, ht.depth, ht.rest, ht.block, ht.parent, ht.extended, ht.stem, ht.notes⟩

end

section
variable {K : Stage} {around : Nat → Option Branch × Bool} {k k' : Spot} {β : Type} {L : β → Prop}

/-! ### Statements without a body -/

/-- A part that a statement cannot do without, and what is done with it. -/
theorem required_bind_traced {α : Type} (part : Stmt.Part) (a : Option α) {f : α → EmitM β}
    (hf : ∀ x, a = some x → Traced K around k k' (f x) L) :
    Traced K around k k' (required K.env part a >>= f) L := by
  cases a with
  | some a =>
    rw [required, pure_bind]
    exact hf a rfl
  | none =>
    rw [required, fail_bind]
    exact .fail _ _

/-- An expression that a statement cannot do without. -/
theorem operand_traced (H : K.Sound) (part : Stmt.Part) (e : Option Expr) {f : String → EmitM β}
    (hf : ∀ x code, e = some x → K.rules.term ⟨x, k.depth, code⟩ →
      Traced K around (k.using (Expr.usesLoopOption e)) k' (f code) L) :
    Traced K around k k' (required K.env part e >>= fun e => expr K.env e >>= f) L := by
  refine required_bind_traced part e fun x hx => ?_
  subst hx
  exact (H.expr around k x).bind fun code hcode => hf x code rfl hcode

theorem expr?_traced (H : K.Sound) (e : Option Expr) :
    Traced K around k (k.using (Expr.usesLoopOption e)) (expr? K.env e) fun out =>
      ∃ t, K.rules.Optional k.depth e t ∧ out = t.map (·.code) := by
  cases e with
  | none =>
    rw [Expr.usesLoopOption, Spot.using_false]
    exact .pure ⟨none, .none, rfl⟩
  | some e => exact (H.expr around k e).map fun code hcode => ⟨_, .some hcode, rfl⟩

/-- The code of the statement is the text of one of its scripts. -/
def Stage.Shows (K : Stage) (k : Spot) (x : Stmt) (code : String) : Prop :=
  ∃ steps, x.Scripted K.rules k steps ∧ Script.text steps = code

/-- The code of the nodes is the text of one of their scripts. -/
def Stage.ShowsAll (K : Stage) (k : Spot) (ns : List Node) (code : String) : Prop :=
  ∃ steps, Node.Scripted K.rules k ns steps ∧ Script.text steps = code

/-- A statement that becomes one step. -/
theorem Stage.shows_single {x : Stmt} {s : Script.Step} (h : x.Scripted K.rules k [s]) :
    K.Shows k x s.text :=
  ⟨[s], h, Script.text_single s⟩

theorem echo_traced (H : K.Sound) (e : Option Expr) :
    Traced K around k (k.using (Expr.usesLoopOption e)) (echo K.env e) (K.Shows k (.echo e)) := by
  unfold echo
  refine required_bind_traced .expr e fun x hx => ?_
  subst hx
  refine (H.expr around k x).bind fun code hcode => ?_
  have hshows := Stage.shows_single (.echo hcode)
  rw [Script.Step.text, Script.printed] at hshows
  by_cases hsuper : x.isSuper = true
  · rw [if_pos hsuper] at hshows ⊢
    exact .pure hshows
  · rw [if_neg hsuper] at hshows ⊢
    refine .get_bind fun s hs => ?_
    have hescaped : s.autoescape = k.autoescape := hs.autoescape
    rw [hescaped]
    by_cases hk : k.autoescape = true
    · rw [if_pos hk] at hshows ⊢
      exact .pure hshows
    · rw [if_neg hk] at hshows ⊢
      exact .pure hshows

theorem assignments_traced (H : K.Sound) (as : List Assignment) : ∀ k : Spot,
    Traced K around k (k.using (as.any Assignment.usesLoop)) (assignments K.env as) fun out =>
      ∃ ts, K.rules.Assigned k.depth as ts out := by
  induction as with
  | nil =>
    intro k
    rw [List.any_nil, Spot.using_false]
    exact .pure ⟨[], .nil⟩
  | cons a rest ih =>
    intro k
    obtain ⟨target, op, value⟩ := a
    rw [assignments, List.any_cons, Assignment.usesLoop, ← Spot.using_using, ← Spot.using_using]
    refine operand_traced H .value value fun x v hx hv => ?_
    refine (H.expr around _ target).bind fun goal hgoal => ?_
    refine (ih _).bind fun code hcode => ?_
    obtain ⟨ts, hts⟩ := hcode
    subst hx
    exact .pure ⟨_, .cons hv hgoal hts⟩

theorem assign_traced (H : K.Sound) (as : List Assignment) :
    Traced K around k (k.using (as.any Assignment.usesLoop)) (assign K.env as)
      (K.Shows k (.assign as)) := by
  unfold assign
  split
  · exact .fail _ _
  · rename_i hne
    refine (assignments_traced H as k).bind fun code hcode => ?_
    obtain ⟨ts, hts⟩ := hcode
    exact .pure (Stage.shows_single (.assign (by simpa using hne) hts))

theorem parameters_traced (H : K.Sound) (name : String) (ps : List Parameter) :
    ∀ (i : Nat) (k : Spot),
    Traced K around k (k.using (ps.any (Expr.usesLoopOption ·.fallback)))
      (parameters K.env name i ps)
      fun codes => ∃ ts, K.rules.Bound k.depth name i ps ts codes := by
  induction ps with
  | nil =>
    intro i k
    rw [List.any_nil, Spot.using_false]
    exact .pure ⟨[], .nil⟩
  | cons p rest ih =>
    intro i k
    obtain ⟨p, fallback⟩ := p
    rw [parameters, List.any_cons, ← Spot.using_using]
    cases fallback with
    | none =>
      rw [Expr.usesLoopOption, Spot.using_false]
      refine (ih (i + 1) k).bind fun codes hcodes => ?_
      obtain ⟨ts, hts⟩ := hcodes
      exact .pure ⟨ts, .required hts⟩
    | some e =>
      have hvalue : Traced K around k (k.using e.usesLoop)
          (Code.Macro.fallback p <$> expr K.env e) fun out =>
          ∃ code, K.rules.term ⟨e, k.depth, code⟩ ∧ out = Code.Macro.fallback p code :=
        (H.expr around k e).map fun code hcode => ⟨code, hcode, rfl⟩
      refine hvalue.bind fun out hout => ?_
      obtain ⟨code, hcode, rfl⟩ := hout
      refine (ih (i + 1) _).bind fun codes hcodes => ?_
      obtain ⟨ts, hts⟩ := hcodes
      exact .pure ⟨_, .optional hcode hts⟩

theorem defineMacro_traced (name : String) :
    Traced K around k k (defineMacro K.env name) fun _ => True := by
  refine .get_bind fun s _ => ?_
  split
  · exact .fail _ _
  · exact modify_traced fun _ hs => hs.keep rfl

theorem includeView_traced (H : K.Sound) (path params : Option Expr) :
    Traced K around k (k.using (Expr.usesLoopOption path || Expr.usesLoopOption params))
      (includeView K.env path params) (K.Shows k (.including path params)) := by
  unfold includeView
  refine required_bind_traced .path path fun e he => ?_
  subst he
  rw [← Spot.using_using]
  split
  · rename_i path
    have hstr : (Expr.str path).usesLoop = false := rfl
    simp only [Expr.usesLoopOption, hstr, Spot.using_false]
    refine .get_bind fun s _ => (onDisk_traced _).bind fun output _ => ?_
    exact .pure (Stage.shows_single .takeOver)
  · rename_i hne
    rw [Expr.usesLoopOption, Expr.usesLoopOption, Spot.using_false]
    refine (H.expr around k e).bind fun code hcode => ?_
    exact .pure (Stage.shows_single (.including hne hcode))
  · rename_i params
    refine (H.expr around k e).bind fun code hcode => ?_
    refine (H.expr around _ params).bind fun given hgiven => ?_
    exact .pure (Stage.shows_single (.includeWith hcode hgiven))

theorem forElse_traced : Traced K around k k forElse (K.Shows k .forElse) := by
  refine .get_bind fun s hs => ?_
  have hnoted : K.rules.tracked = true →
      s.branches.lookup s.loopLevel = k.branch ∧ s.recorded.contains s.loopLevel = k.used := by
    intro htracked
    have hnote := (hs.notes htracked).1
    rw [hs.depth]
    exact ⟨congrArg Prod.fst hnote, congrArg Prod.snd hnote⟩
  split
  · rename_i b hb
    rw [hb] at hnoted
    exact .pure (Stage.shows_single
      (.forElse fun htracked => ⟨(hnoted htracked).1.symm, (hnoted htracked).2⟩))
  · rename_i hb
    rw [hb] at hnoted
    exact .pure ⟨[], .strayElse fun htracked => (hnoted htracked).1.symm, rfl⟩

/-! ### Loops -/

theorem loopStem_traced (H : K.Sound) : Traced K around k k (loopStem K.env) K.rules.stem := by
  refine .get_bind fun s hs => ?_
  dsimp only
  split
  · rename_i stem hstem
    exact .pure (hs.stem stem hstem)
  · split
    · rename_i hident
      refine (modify_traced fun s hs => ?_).bind fun _ _ => .pure (H.stem hident)
      refine ⟨hs.autoescape, hs.depth, hs.rest, hs.block, hs.parent, hs.extended,
        fun x hx => ?_, hs.notes⟩
      cases hx
      exact H.stem hident
    · intro _ _ a t he
      cases he

/-- What is noted of the loops around a spot, seen from one loop deeper. -/
def outward (k : Spot) (around : Nat → Option Branch × Bool) (x : Nat) : Option Branch × Bool :=
  if x = k.depth then (k.branch, k.used) else around x

/-- One loop deeper, with something noted of the loop. -/
def deeper (k : Spot) (note : Option Branch × Bool) : Spot :=
  ⟨k.autoescape, k.depth + 1, note.1, note.2⟩

theorem noted_clearLoop_self (s : State) (d : Nat) : (s.clearLoop d).noted d = (none, false) := by
  simp [State.noted, State.clearLoop, lookup_filter_ne]

theorem noted_clearLoop (s : State) {d x : Nat} (h : x ≠ d) :
    (s.clearLoop d).noted x = s.noted x := by
  unfold State.noted
  rw [clearLoop_lookup s h, clearLoop_contains s h]

/-- What is emitted in a loop starts with what is still noted of an earlier loop of its
depth. Where nothing is noted of the loop in the end, what was known around it is known again. -/
theorem Traced.inLoop {m : EmitM β}
    (h : ∀ note, Traced K (outward k around) (deeper k note) (deeper k (none, false)) m L) :
    Traced K around k k (Emit.inLoop m) L := by
  refine .within (fun s => h (s.noted (k.depth + 1))) (fun s hs => ?_) fun s t hs ht => ?_
  · refine ⟨hs.autoescape, congrArg (· + 1) hs.depth, hs.rest, hs.block, hs.parent,
      hs.extended, hs.stem,
      fun htracked => ⟨rfl, fun x hx => ?_⟩⟩
    have hx : x < k.depth + 1 := hx
    unfold outward
    split
    · rename_i heq
      subst heq
      exact (hs.notes htracked).1
    · exact (hs.notes htracked).2 x (by omega)
  · refine ⟨ht.autoescape, ?_, ht.rest, ht.block, ht.parent, ht.extended, ht.stem,
      fun htracked => ?_⟩
    · show t.loopLevel - 1 = k.depth
      rw [ht.depth]
      rfl
    · have hnoted : ∀ x < k.depth + 1, t.noted x = outward k around x := (ht.notes htracked).2
      refine ⟨(hnoted k.depth (Nat.lt_succ_self _)).trans (if_pos rfl), fun x hx => ?_⟩
      exact (hnoted x (by omega)).trans (if_neg (by omega))

/-- A loop begins with nothing noted of it. -/
theorem clearLoop_traced {j : Spot} (hdepth : j.depth = k.depth + 1)
    (hescape : j.autoescape = k.autoescape) :
    Traced K (outward k around) j (deeper k (none, false)) (modify (·.clearLoop (k.depth + 1)))
      fun _ => True := by
  refine modify_traced fun s hs => ?_
  refine ⟨hs.autoescape.trans hescape, hs.depth.trans hdepth, hs.rest, hs.block, hs.parent,
    hs.extended, hs.stem,
    fun htracked => ⟨noted_clearLoop_self s _, fun x hx => ?_⟩⟩
  have hx : x < k.depth + 1 := hx
  rw [noted_clearLoop s (by omega)]
  exact (hs.notes htracked).2 x (by omega)

/-- A branch for nothing to loop over is noted. -/
theorem noteBranch_traced (stem : String) (guarded branched : Bool) :
    Traced K (outward k around) (deeper k (none, false)) (k.enter stem guarded branched)
      (noteBranch (k.depth + 1) ⟨stem, guarded⟩ branched) fun _ => True := by
  unfold noteBranch
  cases branched with
  | false => exact .pure trivial
  | true =>
    refine modify_traced fun s hs => ?_
    refine ⟨hs.autoescape, hs.depth, hs.rest, hs.block, hs.parent, hs.extended, hs.stem,
      fun htracked => ?_⟩
    have hcontains := congrArg Prod.snd (hs.notes htracked).1
    refine ⟨Prod.ext ?_ hcontains, fun x hx => ?_⟩
    · show List.lookup (k.depth + 1) ((k.depth + 1, _) :: s.branches) = _
      rw [lookup_cons_ite, if_pos rfl]
      rfl
    · have hx : x < k.depth + 1 := hx
      have hsame : s.noted x = outward k around x := (hs.notes htracked).2 x hx
      rw [← hsame]
      unfold State.noted
      rw [lookup_cons_ite, if_neg (by omega)]

/-- Whether the loop is recorded is known, if that is tracked. -/
theorem takeRecorded_traced {j : Spot} (hdepth : j.depth = k.depth + 1)
    (hescape : j.autoescape = k.autoescape) :
    Traced K (outward k around) j (deeper k (none, false)) (takeRecorded (k.depth + 1))
      fun recorded =>
      K.rules.tracked = true → recorded = j.used := by
  refine .get_bind fun s hs => ?_
  refine (clearLoop_traced hdepth hescape).bind fun _ _ => .pure fun htracked => ?_
  have hcontains := congrArg Prod.snd (hs.notes htracked).1
  rw [hdepth] at hcontains
  exact hcontains

/-- A loop, given the script of its body. -/
theorem loop_traced (H : K.Sound) (target : String) (key : Option String) (iterable : Expr)
    (guard : Option Expr) (body : List Node) {emit : EmitM String}
    (hbody : ∀ j : Spot, Traced K (outward k around) j (j.using (Node.usesLoop body)) emit
      (K.ShowsAll j body)) :
    Traced K around k k (loop K.env target key iterable guard (body.any Node.isForElse) emit)
      (K.Shows k (.forIn target key (some iterable) guard body)) := by
  unfold loop turn
  refine .inLoop fun note => .get_bind fun s hs => ?_
  have hdepth : s.loopLevel = k.depth + 1 := hs.depth
  dsimp only
  rw [hdepth]
  refine (loopStem_traced H).bind fun stem hstem => ?_
  refine (H.expr _ _ iterable).bind fun source hsource => ?_
  refine (clearLoop_traced (by rfl) (by rfl)).bind fun _ _ => ?_
  refine (noteBranch_traced _ _ _).bind fun _ _ => ?_
  refine (expr?_traced H guard).bind fun _ hguard => ?_
  obtain ⟨g, hg, rfl⟩ := hguard
  refine (hbody _).bind fun _ hcode => ?_
  obtain ⟨b, hb, rfl⟩ := hcode
  refine (takeRecorded_traced (by rfl) (by rfl)).bind fun recorded hrecorded => ?_
  refine .pure (Stage.shows_single (.forIn hstem hsource hg hb fun htracked => ?_))
  rw [hrecorded htracked, Spot.using_using]
  simp [Spot.using, Spot.enter]

/-! ### Statements -/

/-- A statement list that is emitted in place. -/
theorem sequence_traced {ns : List Node}
    (h : Traced K around k (k.using (Node.usesLoop ns)) (nodes K.env .page ns false "") fun out =>
      out.2 = false ∧ ∃ more, K.ShowsAll k ns more ∧ out.1 = "" ++ more) :
    Traced K around k (k.using (Node.usesLoop ns))
      (sequence .page ns.isEmpty fun r => nodes K.env .page ns r "") (K.ShowsAll k ns) := by
  cases ns with
  | nil =>
    rw [Node.usesLoop, Spot.using_false]
    exact .pure ⟨[], .nil, rfl⟩
  | cons n ns =>
    refine .get_bind fun s hs => ?_
    have hreg : (s.extended || Mode.page == .layout) = false := by rw [hs.extended]; rfl
    dsimp only
    rw [hreg]
    refine (h.inList false).bind fun out hout => ?_
    obtain ⟨_, _⟩ := out
    obtain ⟨rfl, code, hcode, rfl⟩ := hout
    rw [String.empty_append]
    exact .get_bind fun _ _ => .pure hcode

/-- A statement after `code`, emitted in place. -/
theorem step_traced (H : K.Sound) (s : Stmt) (pos : Position) (code : String)
    (hext : s.isExtending = false) {m : EmitM String} (h : Traced K around k k' m (K.Shows k s)) :
    Traced K around k k' (step K.env (.mk s pos) false code m) fun out =>
      out.2 = false ∧ ∃ more, K.Shows k s more ∧ out.1 = code ++ more := by
  unfold step
  rw [Compiler.handled_eq_none H.extensions]
  refine .inStmt pos ?_
  dsimp only [Node.stmt]
  rw [place_eq (fun h => absurd h Bool.false_ne_true), hext]
  exact h.bind fun more hmore => .pure ⟨rfl, more, hmore, rfl⟩

end

mutual

/-- The code of a statement is the text of its script. -/
theorem stmt_traced {K : Stage} (H : K.Sound) :
    ∀ (x : Stmt) (around : Nat → Option Branch × Bool) (k : Spot),
    (∀ y ∈ x.statements, y.isExtending = false) →
    Traced K around k (k.using x.usesLoop) (stmt K.env .page x) (K.Shows k x)
  | .text value, _, k, _ => by
    simp only [stmt, Stmt.usesLoop, Spot.using_false]
    exact .pure (Stage.shows_single .text)
  | .echo e, _, _, _ => by
    simp only [stmt, Stmt.usesLoop]
    exact echo_traced H e
  | .ifThen condition body elseBody, around, k, hext => by
    simp only [Stmt.statements, List.forall_mem_cons, List.forall_mem_append] at hext
    have hbody := fun j => sequence_traced (nodes_traced H body around j hext.2.1 "")
    simp only [stmt, Stmt.usesLoop]
    rw [← Spot.using_using, ← Spot.using_using]
    refine operand_traced H .condition condition fun x cond hx hcond => ?_
    subst hx
    refine (hbody _).bind fun _ hcode => ?_
    obtain ⟨b, hb, rfl⟩ := hcode
    refine (elseCode_traced H elseBody around _ hext.2.2).bind fun other hother => ?_
    rcases hother with ⟨rfl, rfl⟩ | ⟨ns, o, rfl, ho, rfl⟩
    · refine .pure ⟨_, .ifThen hcond hb, ?_⟩
      simp [Script.Step.text]
    · rw [Spot.using_using] at ho
      refine .pure ⟨_, .ifElse hcond hb ho, ?_⟩
      simp [Script.Step.text, String.append_assoc]
  | .elseIf condition, _, _, _ => by
    simp only [stmt, Stmt.usesLoop]
    refine operand_traced H .condition condition fun x code hx hcode => ?_
    subst hx
    exact .pure (Stage.shows_single (.elseIf hcode))
  | .switchOn subject cases, around, k, hext => by
    simp only [Stmt.statements, List.forall_mem_cons] at hext
    have hcases := fun j => sequence_traced (nodes_traced H cases around j hext.2 "")
    simp only [stmt, Stmt.usesLoop]
    rw [← Spot.using_using]
    refine operand_traced H .expr subject fun x code hx hcode => ?_
    subst hx
    refine (hcases _).bind fun _ hcode => ?_
    obtain ⟨b, hb, rfl⟩ := hcode
    exact .pure (Stage.shows_single (.switchOn hcode hb))
  | .caseOf value, _, _, _ => by
    simp only [stmt, Stmt.usesLoop]
    refine operand_traced H .expr value fun x code hx hcode => ?_
    subst hx
    exact .pure (Stage.shows_single (.caseOf hcode))
  | .caseDefault, _, k, _ => by
    simp only [stmt, Stmt.usesLoop, Spot.using_false]
    exact .pure (Stage.shows_single .caseDefault)
  | .forIn target key iterable guard body, around, k, hext => by
    simp only [Stmt.statements, List.forall_mem_cons] at hext
    simp only [stmt, Stmt.usesLoop, Spot.using_false]
    refine required_bind_traced .iterable iterable fun x hx => ?_
    subst hx
    exact loop_traced H target key x guard body fun j =>
      sequence_traced (nodes_traced H body _ j hext.2 "")
  | .forElse, _, k, _ => by
    simp only [stmt, Stmt.usesLoop, Spot.using_false]
    exact forElse_traced
  | .assign as, _, _, _ => by
    simp only [stmt, Stmt.usesLoop]
    exact assign_traced H as
  | .block name body, around, k, hext => by
    simp only [Stmt.statements, List.forall_mem_cons] at hext
    simp only [stmt, Stmt.usesLoop]
    intro s hs code t he
    obtain ⟨⟨b, hb, rfl⟩, ht⟩ := sequence_traced
      (nodes_traced H body around k hext.2 "") s hs code t he
    exact ⟨⟨b, .block hb, rfl⟩, ht⟩
  | .extending path, _, _, hext => by
    have hself := hext _ (Stmt.mem_statements _)
    cases hself
  | .including path params, _, _, _ => by
    simp only [stmt, Stmt.usesLoop]
    exact includeView_traced H path params
  | .macroDef name params body, around, k, hext => by
    simp only [Stmt.statements, List.forall_mem_cons] at hext
    have hbody := fun j => sequence_traced (nodes_traced H body around j hext.2 "")
    simp only [stmt, Stmt.usesLoop]
    rw [← Spot.using_using]
    refine (defineMacro_traced name).bind fun _ _ => ?_
    refine (parameters_traced H name params 0 k).bind fun codes hcodes => ?_
    obtain ⟨ts, hts⟩ := hcodes
    refine (hbody _).bind fun _ hcode => ?_
    obtain ⟨b, hb, rfl⟩ := hcode
    rw [Code.Macro.code_eq]
    exact .pure (Stage.shows_single (.macroDef hts hb))
  | .evaluate e, _, _, _ => by
    simp only [stmt, Stmt.usesLoop]
    refine operand_traced H .expr e fun x code hx hcode => ?_
    subst hx
    exact .pure (Stage.shows_single (.evaluate hcode))
  | .returning e, _, _, _ => by
    simp only [stmt, Stmt.usesLoop]
    refine operand_traced H .expr e fun x code hx hcode => ?_
    subst hx
    exact .pure (Stage.shows_single (.returning hcode))
  | .autoescape enabled body, around, k, hext => by
    simp only [Stmt.statements, List.forall_mem_cons] at hext
    simp only [stmt, Stmt.usesLoop]
    refine required_bind_traced .enabled enabled fun x hx => ?_
    subst hx
    refine .inAutoescape x _ fun s hs code t he => ?_
    obtain ⟨⟨b, hb, rfl⟩, ht⟩ := sequence_traced
      (nodes_traced H body around _ hext.2 "") s hs code t he
    exact ⟨⟨b, .autoescape hb, rfl⟩, ht⟩
  | .continueLoop, _, k, _ => by
    simp only [stmt, Stmt.usesLoop, Spot.using_false]
    exact .pure (Stage.shows_single .continueLoop)
  | .breakLoop, _, k, _ => by
    simp only [stmt, Stmt.usesLoop, Spot.using_false]
    exact .pure (Stage.shows_single .breakLoop)
  | .cached key lifetime body, around, k, hext => by
    simp only [Stmt.statements, List.forall_mem_cons] at hext
    have hbody := fun j => sequence_traced (nodes_traced H body around j hext.2 "")
    simp only [stmt, Stmt.usesLoop]
    rw [← Spot.using_using, ← Spot.using_using]
    refine operand_traced H .key key fun x code hx hcode => ?_
    subst hx
    refine (expr?_traced H lifetime).bind fun _ hlife => ?_
    obtain ⟨l, hl, rfl⟩ := hlife
    refine (hbody _).bind fun _ hinside => ?_
    obtain ⟨b, hb, rfl⟩ := hinside
    rw [Spot.using_using] at hb
    rw [Code.cached_eq]
    exact .pure (Stage.shows_single (.cached hcode hl hb))
  | .unknown, _, _, _ => by
    simp only [stmt]
    exact .fail _ _

/-- The last branch of a conditional, if there is one, begins with its turn. -/
theorem elseCode_traced {K : Stage} (H : K.Sound) : ∀ (elseBody : Option (List Node))
    (around : Nat → Option Branch × Bool) (k : Spot),
      (∀ y ∈ Node.statementsOption elseBody, y.isExtending = false) →
    Traced K around k (k.using (Node.usesLoopOption elseBody)) (elseCode K.env .page elseBody)
      fun code =>
      (elseBody = none ∧ code = "") ∨
      ∃ ns o, elseBody = some ns ∧ Node.Scripted K.rules k ns o ∧
      code = Code.elseOpen ++ Script.text o
  | none, _, k, _ => by
    rw [elseCode, Node.usesLoopOption, Spot.using_false]
    exact .pure (.inl ⟨rfl, rfl⟩)
  | some ns, around, k, hext => by
    rw [elseCode, Node.usesLoopOption]
    refine (sequence_traced (nodes_traced H ns around k hext "")).bind fun _ hcode => ?_
    obtain ⟨o, ho, rfl⟩ := hcode
    exact .pure (.inr ⟨ns, o, rfl, ho, rfl⟩)

/-- The code of the nodes is the text of their script. -/
theorem nodes_traced {K : Stage} (H : K.Sound) :
    ∀ (ns : List Node) (around : Nat → Option Branch × Bool) (k : Spot),
    (∀ y ∈ Node.statements ns, y.isExtending = false) → ∀ code,
    Traced K around k (k.using (Node.usesLoop ns)) (nodes K.env .page ns false code) fun out =>
      out.2 = false ∧ ∃ more, K.ShowsAll k ns more ∧ out.1 = code ++ more
  | [], _, k, _, code => by
    rw [nodes, Node.usesLoop, Spot.using_false]
    exact .pure ⟨rfl, "", ⟨[], .nil, rfl⟩, by simp⟩
  | .mk s pos :: rest, around, k, hext, code => by
    simp only [Node.statements, List.forall_mem_append] at hext
    simp only [nodes, Node.usesLoop]
    rw [← Spot.using_using]
    have hs := stmt_traced H s around k hext.1
    refine (step_traced H s pos code (hext.1 s (Stmt.mem_statements s)) hs).bind fun out hout => ?_
    obtain ⟨_, _⟩ := out
    obtain ⟨rfl, _, ⟨as, has, rfl⟩, rfl⟩ := hout
    intro s' hs' out t he
    obtain ⟨⟨hreg, _, ⟨bs, hbs, rfl⟩, hout⟩, ht⟩ :=
      nodes_traced H rest around _ hext.2 _ s' hs' out t he
    refine ⟨⟨hreg, _, ⟨as ++ bs, .cons has hbs, rfl⟩, ?_⟩, ht⟩
    rw [hout, Script.text_append, String.append_assoc]

end

/-- The code of a statement list is the text of a script. -/
theorem list_traced {K : Stage} (H : K.Sound) (ns : List Node)
    (around : Nat → Option Branch × Bool) (k : Spot)
    (hext : ∀ y ∈ Node.statements ns, y.isExtending = false) :
    Traced K around k (k.using (Node.usesLoop ns)) (list K.env .page ns) (K.ShowsAll k ns) :=
  sequence_traced (nodes_traced H ns around k hext "")

end Emit
end Stencil
