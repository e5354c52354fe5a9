/-
# Records of loops

A loop whose record is used has its code carry the record: it is set up before the loop
and brought up to date in each iteration. Whether a loop does so is decided by notes that are
taken and dropped while other loops are emitted, but it comes out as a property of the
template: the name of the record occurs in the guard or the body, outside of loops inside.

So a record that is read in a guard or a body, however deep, is one that has been set up
around the reading. What a loop runs over is emitted as if the loop were open already. A
record that is read there is that of the loop itself, which nothing has set up.

Key definitions: `Plain.Site.rules`, `Stmt.ownsRecord`, `Script.Step.Keeps`, `Script.Initialised`.
Key theorems: `Compiler.page_scripted`, `Node.Scripted.initialised`,
`Compiler.compileSource_keeps_records`, `Compiler.compileSource_initialises`.
-/
import Stencil.Proofs.Pages
import Stencil.Proofs.Traced

namespace Stencil

open Plain (Spot)
open Script (Rules Step Term)

/-! ### Scripts of pages -/

/-- Expressions have their plain code, and loops are recorded where their record is used. -/
def Plain.Site.rules (S : Plain.Site) : Rules where
  term t := Plain.expr? S t.depth t.expr = some t.code
  stem p := S.stem? = some p
  tracked := true

namespace Emit

/-- The stage of a template in which no block is overridden. -/
def Stage.quiet (env : Env) : Stage := ⟨env, (env.compiler.site env.source).rules, none, none⟩

section
variable {env : Env} {around : Nat → Option Branch × Bool} {k : Spot} {s : State}

theorem Stands.at (hs : Stands (.quiet env) around k s) : At (.quiet env .page false none) k s := by
  have hnote := (hs.notes rfl).1
  exact ⟨hs.autoescape, hs.depth, congrArg Prod.fst hnote, congrArg Prod.snd hnote, hs.stem,
    hs.block, hs.parent,
    .inl ⟨rfl, hs.extended⟩, fun _ => hs.rest⟩

theorem Stands.moved {u : Bool} {names : List String} {t : State}
    (hs : Stands (.quiet env) around k s)
    (hm : Moved (.quiet env .page false none) (k.using u) names s t) :
    Stands (.quiet env) around (k.using u) t := by
  have hat := hm.at hs.at
  have hextended : t.extended = s.extended := by rw [hm.frame]
  refine ⟨hat.autoescape, hat.depth, hat.rest rfl, hat.block, hat.parent,
    hextended.trans hs.extended, hat.stem,
    fun _ => ⟨Prod.ext hat.branch hat.used, fun x hx => ?_⟩⟩
  rw [← (hs.notes rfl).2 x hx]
  exact Prod.ext (hm.branches x (Nat.le_of_lt hx)) (hm.recorded x hx)

end

theorem quiet_sound {c : Compiler} (hext : c.extensions = []) (source : String)
    (nested : String → Mode → DiskM Output) : (Stage.quiet (.outer c source nested)).Sound where
  extensions := hext
  stem hident := if_pos hident
  expr around k e s hs code t he := by
    have hadmits := Expr.all_of_forall
      (p := (Scene.quiet (.outer c source nested) .page false none).admits)
      (fun _ => rfl) e
    have hyields := expr_emits (quiet_whole hext .page false none).toSimple e k hadmits s hs.at
    obtain ⟨hcode, -, hmoved⟩ := hyields.ok he
    exact ⟨hcode, hs.moved hmoved⟩

theorem initial_stands (env : Env) (a : Bool) (d : Disk) :
    Stands (.quiet env) (fun _ => (none, false)) (.outermost a) (.initial a d) :=
  ⟨rfl, rfl, rfl, rfl, rfl, rfl, nofun, fun _ => ⟨rfl, nofun⟩⟩

end Emit

/-- A page that extends nothing is the text of its script. -/
theorem Compiler.page_scripted {c : Compiler} {d : Disk} {text source code : String}
    {tree : Template} (hext : c.extensions = []) (hparse : c.parse text source = .ok tree)
    (hnone : ∀ x ∈ Node.statements tree, x.isExtending = false)
    (hcode : (exec (c.compileSource text source .page) d).1 = .ok (.code code)) :
    ∃ script, Node.Scripted (c.site source).rules (.outermost c.options.autoescape) tree script ∧
      Script.text script = code := by
  rw [exec_compileSource_page hparse, pageOf, exec_emit] at hcode
  dsimp only at hcode
  generalize hrun : exec (Emit.page (.outer c source c.nested) tree)
    (.initial c.options.autoescape d) = out at hcode
  obtain ⟨r, t⟩ := out
  cases r with
  | error e => cases hcode
  | ok page =>
    cases hcode
    obtain ⟨listed, s, hlist, hrest⟩ := exec_bind_eq_ok.1 hrun
    obtain ⟨⟨script, hscript, rfl⟩, hs⟩ :=
      Emit.list_traced (Emit.quiet_sound hext source c.nested) tree _ _ hnone _
      (Emit.initial_stands _ _ _) _ _ hlist
    rw [exec_bind, exec_get] at hrest
    dsimp only at hrest
    rw [hs.extended] at hrest
    cases hrest
    exact ⟨script, hscript, rfl⟩

/-! ### Loops that keep a record -/

/-- The record of the loop is used in its guard or its body, outside of loops inside. -/
def Stmt.ownsRecord : Stmt → Bool
  | .forIn _ _ _ guard body => Expr.usesLoopOption guard || Node.usesLoop body
  | _ => false

/-- The step is a loop. Its code sets the record up before the loop and brings it up to
date first thing in each iteration, if `keeps` says so, and does neither otherwise. -/
def Script.Step.Keeps (keeps : Bool) : Step → Prop
  | .loop head depth source guard body =>
    head.recorded = keeps ∧
      (Step.loop head depth source guard body).text =
        head.flag ++ ((if keeps then head.prologue else "") ++ head.opening ++
          (if keeps then head.refresh else "")) ++
          (head.entry ++ Script.text body ++ head.closing)
  | _ => False

theorem Stmt.BecomesLoop.keeps {R : Rules} (htracked : R.tracked = true) {x : Stmt} {s : Step}
    (h : x.BecomesLoop R s) : s.Keeps x.ownsRecord := by
  obtain ⟨hx, k, h⟩ := h
  cases h with
  | forIn hstem hsource hguard hbody hrecorded =>
    have hkeeps := hrecorded htracked
    refine ⟨hkeeps, ?_⟩
    rw [Step.text, Code.Loop.code_eq, Stmt.ownsRecord, ← hkeeps]
  | _ => cases hx

/-! ### Records that are read -/

namespace Script

/-- The record that the term reads, if any, is that of a loop at one of the depths. -/
def Term.Within (depths : List Nat) (t : Term) : Prop := ∀ d, t.reads = some d → d ∈ depths

mutual

/-- Every record that the step reads is that of a loop around the reading, which has set it
up by then. Loops at `depths` have done so around the step, and a loop that keeps a record has
done so around its guard and its body. What loops run over counts if `sources` says so. -/
def Step.Initialised (sources : Bool) (depths : List Nat) : Step → Prop
  | .run ts _ | .jump _ ts _ | .turn ts _ _ | .label ts _ => ∀ t ∈ ts, t.Within depths
  | .taken _ | .advance _ _ | .orElse _ _ => True
  | .branch ts _ body _ | .choose ts _ body _ | .closure ts _ body _ =>
    (∀ t ∈ ts, t.Within depths) ∧ Initialised sources depths body
  | .loop head depth source guard body =>
    let inside := if head.recorded then depth :: depths else depths
    (sources = true → source.Within depths) ∧ (∀ t ∈ guard.toList, t.Within inside) ∧
      Initialised sources inside body

/-- Every record that the script reads has been set up around the reading. -/
def Initialised (sources : Bool) (depths : List Nat) : List Step → Prop
  | [] => True
  | s :: rest => s.Initialised sources depths ∧ Initialised sources depths rest

end

section
variable {sources : Bool} {depths : List Nat}

@[simp] theorem initialised_nil : Initialised sources depths [] := trivial

@[simp] theorem initialised_cons {s : Step} {rest : List Step} :
    Initialised sources depths (s :: rest) ↔
      s.Initialised sources depths ∧ Initialised sources depths rest := Iff.rfl

@[simp] theorem initialised_append {as bs : List Step} :
    Initialised sources depths (as ++ bs) ↔
      Initialised sources depths as ∧ Initialised sources depths bs := by
  induction as with
  | nil => simp
  | cons s rest ih => simp [ih, and_assoc]

/-- At most the record of the innermost loop is read. -/
theorem Term.within {e : Expr} {depth : Nat} (h : e.usesLoop = true → 0 < depth → depth ∈ depths)
    (code : String) :
    Term.Within depths ⟨e, depth, code⟩ := by
  intro d hd
  unfold Term.reads at hd
  split at hd
  · rename_i hreads
    cases hd
    exact h hreads.2 hreads.1
  · cases hd

/-- A record that nothing around has set up must not be read. -/
theorem Term.within_iff {e : Expr} {depth : Nat} {code : String} (hfresh : depth ∉ depths)
    (hpos : 0 < depth) :
    Term.Within depths ⟨e, depth, code⟩ ↔ e.usesLoop = false := by
  constructor
  · intro h
    by_contra huses
    have hreads : Term.reads ⟨e, depth, code⟩ = some depth := if_pos ⟨hpos, by simpa using huses⟩
    exact hfresh (h depth hreads)
  · intro h
    exact Term.within (fun huses => absurd (h.symm.trans huses) Bool.false_ne_true) code

theorem Rules.Optional.within {R : Rules} {depth : Nat} {e : Option Expr} {t : Option Term}
    (h : R.Optional depth e t) (huses : Expr.usesLoopOption e = true → 0 < depth → depth ∈ depths) :
    ∀ x ∈ t.toList, x.Within depths := by
  cases h with
  | none => exact nofun
  | some _ =>
    intro x hx
    rw [List.mem_singleton.1 hx]
    exact Term.within huses _

theorem Rules.Assigned.within {R : Rules} {depth : Nat} {as : List Assignment} {ts : List Term}
    {code : String}
    (h : R.Assigned depth as ts code)
    (huses : as.any Assignment.usesLoop = true → 0 < depth → depth ∈ depths) :
    ∀ t ∈ ts, t.Within depths := by
  induction h with
  | nil => exact nofun
  | cons hvalue htarget hrest ih =>
    simp only [List.any_cons, Bool.or_eq_true, Assignment.usesLoop, Expr.usesLoopOption] at huses
    intro t ht
    rcases List.mem_cons.1 ht with rfl | ht
    · exact Term.within (fun h => huses (.inl (.inl h))) _
    · rcases List.mem_cons.1 ht with rfl | ht
      · exact Term.within (fun h => huses (.inl (.inr h))) _
      · exact ih (fun h => huses (.inr h)) t ht

theorem Rules.Bound.within {R : Rules} {depth i : Nat} {name : String} {ps : List Parameter}
    {ts : List Term} {codes : List String} (h : R.Bound depth name i ps ts codes)
    (huses : ps.any (Expr.usesLoopOption ·.fallback) = true → 0 < depth → depth ∈ depths) :
    ∀ t ∈ ts, t.Within depths := by
  induction h with
  | nil => exact nofun
  | required hrest ih =>
    exact ih fun h => huses (by simp [h])
  | optional hvalue hrest ih =>
    simp only [List.any_cons, Bool.or_eq_true, Expr.usesLoopOption] at huses
    intro t ht
    rcases List.mem_cons.1 ht with rfl | ht
    · exact Term.within (fun h => huses (.inl h)) _
    · exact ih (fun h => huses (.inr h)) t ht

end
end Script

/-- The statement is a loop that runs over something in which a record is read. -/
def Stmt.sourceUsesLoop : Stmt → Bool
  | .forIn _ _ iterable _ _ => Expr.usesLoopOption iterable
  | _ => false

section
variable {R : Rules} {sources : Bool}

mutual

/-- The loops around a statement are those at `depths`, among others. If the innermost one is
there in case its record is used, every record is set up before it is read, but for those
that loops inside run over. -/
theorem Stmt.Scripted.initialised (htracked : R.tracked = true) :
    ∀ {k : Spot} {x : Stmt} {steps : List Step}, x.Scripted R k steps → ∀ {depths : List Nat},
    (∀ d ∈ depths, d ≤ k.depth) → (x.usesLoop = true → 0 < k.depth → k.depth ∈ depths) →
    (Script.Initialised sources depths steps ↔
      (sources = true → ∀ y ∈ x.statements, y.sourceUsesLoop = false))
  | _, _, _, .text, _, _, _ | _, _, _, .caseDefault, _, _, _ | _, _, _, .forElse _, _, _, _
  | _, _, _, .strayElse _, _, _, _ | _, _, _, .takeOver, _, _, _ | _, _, _, .continueLoop, _, _, _
  | _, _, _, .breakLoop, _, _, _ => by
    simp [Step.Initialised, Stmt.statements, Stmt.sourceUsesLoop]
  | _, _, _, .echo _, _, _, huses | _, _, _, .elseIf _, _, _, huses
  | _, _, _, .caseOf _, _, _, huses | _, _, _, .evaluate _, _, _, huses
  | _, _, _, .returning _, _, _, huses => by
    simpa [Step.Initialised, Stmt.statements, Stmt.sourceUsesLoop] using Term.within huses _
  | _, _, _, .including _ _, _, _, huses => by
    have hpath := fun h => huses (Bool.or_eq_true_iff.2 (.inl h))
    simpa [Step.Initialised, Stmt.statements, Stmt.sourceUsesLoop] using Term.within hpath _
  | _, _, _, .includeWith _ _, _, _, huses => by
    have hpath := fun h => huses (Bool.or_eq_true_iff.2 (.inl h))
    have hparams := fun h => huses (Bool.or_eq_true_iff.2 (.inr h))
    simpa [Step.Initialised, Stmt.statements, Stmt.sourceUsesLoop] using ⟨Term.within hpath _,
      Term.within hparams _⟩
  | _, _, _, .assign _ h, _, _, huses => by
    simpa [Step.Initialised, Stmt.statements, Stmt.sourceUsesLoop] using h.within huses
  | _, _, _, .ifThen _ hbody, _, hdepths, huses => by
    simp only [Stmt.usesLoop, Expr.usesLoopOption, Node.usesLoopOption, Bool.or_false,
      Bool.or_eq_true] at huses
    have hcond := Term.within (fun h => huses (.inl h))
    have hinside := hbody.initialised htracked hdepths fun h => huses (.inr h)
    simp [Step.Initialised, Stmt.statements, Node.statementsOption, Stmt.sourceUsesLoop,
      hcond, hinside]
  | _, _, _, .ifElse _ hbody hother, _, hdepths, huses => by
    simp only [Stmt.usesLoop, Expr.usesLoopOption, Node.usesLoopOption, Bool.or_eq_true] at huses
    have hcond := Term.within (fun h => huses (.inl (.inl h)))
    have hinside := hbody.initialised htracked hdepths fun h => huses (.inl (.inr h))
    have helse := hother.initialised htracked hdepths fun h => huses (.inr h)
    simp [Step.Initialised, Stmt.statements, Node.statementsOption, Stmt.sourceUsesLoop, hcond,
      hinside, helse, imp_and, or_imp, forall_and]
  | _, _, _, .switchOn _ hcases, _, hdepths, huses => by
    simp only [Stmt.usesLoop, Expr.usesLoopOption, Bool.or_eq_true] at huses
    have hsubject := Term.within (fun h => huses (.inl h))
    have hinside := hcases.initialised htracked hdepths fun h => huses (.inr h)
    simp [Step.Initialised, Stmt.statements, Stmt.sourceUsesLoop, hsubject, hinside]
  | k, _, _,
    @Stmt.Scripted.forIn _ _ _ _ source _ iterable guard _ body _ _ _ _ hguard hbody hrecorded,
      depths,
      hdepths, _ => by
    cases hrecorded htracked
    have hfresh : k.depth + 1 ∉ depths :=
      fun hmem => absurd (hdepths _ hmem) (Nat.not_succ_le_self _)
    -- around the guard and the body the loop itself is known, if its record is used there
    generalize hinside :
      (if (Expr.usesLoopOption guard || Node.usesLoop body) = true then (k.depth + 1) :: depths
      else depths) = inside
    have hmem : (Expr.usesLoopOption guard || Node.usesLoop body) = true →
        k.depth + 1 ∈ inside := by
      intro huses
      rw [← hinside, if_pos huses]
      exact List.mem_cons_self
    have hbound : ∀ d ∈ inside, d ≤ k.depth + 1 := by
      intro d hd
      rw [← hinside] at hd
      split at hd
      · rcases List.mem_cons.1 hd with rfl | hd
        · exact Nat.le_refl _
        · exact Nat.le_succ_of_le (hdepths d hd)
      · exact Nat.le_succ_of_le (hdepths d hd)
    have hguarded := hguard.within fun h _ => hmem (by rw [h, Bool.true_or])
    have hbodied := hbody.initialised htracked hbound fun h _ => hmem (by rw [h, Bool.or_true])
    rw [Script.initialised_cons, and_iff_left Script.initialised_nil, Step.Initialised]
    dsimp only
    rw [hinside, and_iff_right hguarded, hbodied, Term.within_iff hfresh (Nat.succ_pos _),
      ← imp_and, Stmt.statements, List.forall_mem_cons, Stmt.sourceUsesLoop, Expr.usesLoopOption]
  | _, _, _, .block hbody, _, hdepths, huses => by
    have hinside := hbody.initialised htracked hdepths huses
    simp [Stmt.statements, Stmt.sourceUsesLoop, hinside]
  | _, _, _, .macroDef hparams hbody, _, hdepths, huses => by
    simp only [Stmt.usesLoop, Bool.or_eq_true] at huses
    have hgiven := hparams.within fun h => huses (.inl h)
    have hinside := hbody.initialised htracked hdepths fun h => huses (.inr h)
    rw [Script.initialised_cons, Step.Initialised, and_iff_right hgiven, hinside]
    simp [Stmt.statements, Stmt.sourceUsesLoop]
  | _, _, _, .autoescape hbody, _, hdepths, huses => by
    have hinside := hbody.initialised htracked hdepths huses
    simp [Stmt.statements, Stmt.sourceUsesLoop, hinside]
  | _, _, _, .cached _ hlifetime hbody, _, hdepths, huses => by
    simp only [Stmt.usesLoop, Expr.usesLoopOption, Bool.or_eq_true] at huses
    have hkey := Term.within (fun h => huses (.inl (.inl h)))
    have hlife := hlifetime.within fun h => huses (.inl (.inr h))
    have hinside := hbody.initialised htracked hdepths fun h => huses (.inr h)
    rw [Script.initialised_cons, Step.Initialised, List.forall_mem_cons, and_iff_right (hkey _),
      and_iff_right hlife, hinside]
    simp [Stmt.statements, Stmt.sourceUsesLoop]

/-- The same of nodes. -/
theorem Node.Scripted.initialised (htracked : R.tracked = true) :
    ∀ {k : Spot} {ns : List Node} {steps : List Step}, Node.Scripted R k ns steps →
      ∀ {depths : List Nat},
    (∀ d ∈ depths, d ≤ k.depth) → (Node.usesLoop ns = true → 0 < k.depth → k.depth ∈ depths) →
    (Script.Initialised sources depths steps ↔
      (sources = true → ∀ y ∈ Node.statements ns, y.sourceUsesLoop = false))
  | _, _, _, .nil, _, _, _ => by simp [Node.statements]
  | _, _, _, .cons hs hrest, depths, hdepths, huses => by
    simp only [Node.usesLoop, Bool.or_eq_true] at huses
    rw [Script.initialised_append, hs.initialised htracked hdepths fun h => huses (.inl h),
      hrest.initialised htracked hdepths fun h => huses (.inr h), ← imp_and, Node.statements,
      List.forall_mem_append]

end

end

/-- The record that is read in what a loop runs over. -/
def Script.Step.sourceReads : Step → Option Nat
  | .loop _ _ source _ _ => source.reads
  | _ => none

/-- The depth of a loop. -/
def Script.Step.loopDepth : Step → Option Nat
  | .loop _ depth _ _ _ => some depth
  | _ => none

theorem Stmt.BecomesLoop.sourceReads {R : Rules} {x : Stmt} {s : Step} (h : x.BecomesLoop R s) :
    s.sourceReads = if x.sourceUsesLoop then s.loopDepth else none := by
  obtain ⟨hx, k, h⟩ := h
  cases h with
  | @forIn _ _ _ _ _ iterable =>
    cases huses : iterable.usesLoop <;>
      simp [Step.sourceReads, Step.loopDepth, Stmt.sourceUsesLoop, Expr.usesLoopOption,
        Term.reads, huses]
  | _ => cases hx

/-! ### Pages -/

namespace Trellis

/-- Rows with their number and their first cells. Other loops inside run over something of the
record of their own, or have an attribute of its name. -/
def tree : Template :=
  [.mk (.forIn "row" none (some (.var "rows")) none
    [.mk (.echo (some (.property (.var "loop") (.var "index")))) .unknown,
      .mk (.forIn "cell" none (some (.var "row")) (some (.property (.var "loop") (.var "first")))
        [.mk (.text "|") .unknown]) .unknown,
      .mk (.forIn "i" none (some (.property (.var "loop") (.var "index"))) none
        [.mk (.echo (some (.property (.var "i") (.var "loop")))) .unknown]) .unknown]) .unknown,
    .mk (.forIn "x" none (some (.var "loop")) none []) .unknown]

def compiler : Compiler :=
  { Compiler.initial with
    makeStem := some fun _ => "v"
    parse := fun _ _ => .ok tree }

/-- The code of the rows: the first two loops set a record up and bring it up to date, the others
go without. -/
def code : String :=
  "<?php $v1iterator = $rows; $v1incr = 0; $v1loop = new stdClass(); $v1loop->self = &$v1loop; " ++
  "$v1loop->length = count($v1iterator); $v1loop->index = 1; $v1loop->index0 = 0; " ++
  "$v1loop->revindex = $v1loop->length; $v1loop->revindex0 = $v1loop->length - 1; ?>" ++
  "<?php foreach ($v1iterator as $row) \x7b ?>" ++
  "<?php $v1loop->first = ($v1incr == 0); $v1loop->index = $v1incr + 1; $v1loop->index0 = $v1incr; " ++
  "$v1loop->revindex = $v1loop->length - $v1incr; " ++
  "$v1loop->revindex0 = $v1loop->length - ($v1incr + 1); " ++
  "$v1loop->last = ($v1incr == ($v1loop->length - 1)); ?><?= $v1loop->index ?>" ++
  "<?php $v2iterator = $row; $v2incr = 0; $v2loop = new stdClass(); $v2loop->self = &$v2loop; " ++
  "$v2loop->length = count($v2iterator); $v2loop->index = 1; $v2loop->index0 = 0; " ++
  "$v2loop->revindex = $v2loop->length; $v2loop->revindex0 = $v2loop->length - 1; ?>" ++
  "<?php foreach ($v2iterator as $cell) \x7b ?>" ++
  "<?php $v2loop->first = ($v2incr == 0); $v2loop->index = $v2incr + 1; $v2loop->index0 = $v2incr; " ++
  "$v2loop->revindex = $v2loop->length - $v2incr; " ++
  "$v2loop->revindex0 = $v2loop->length - ($v2incr + 1); " ++
  "$v2loop->last = ($v2incr == ($v2loop->length - 1)); ?>" ++
  "<?php if ($v2loop->first) \x7b ?>|<?php \x7d ?><?php $v2incr++; \x7d ?>" ++
  "<?php foreach ($v2loop->index as $i) \x7b ?><?= $i->loop ?><?php \x7d ?><?php $v1incr++; \x7d ?>" ++
  "<?php foreach ($v1loop as $x) \x7b ?><?php \x7d ?>"

theorem compiles : (exec (compiler.compileSource "" "x" .page) .empty).1 = .ok (.code code) := by
  have hparse : compiler.parse "" "x" = .ok tree := rfl
  have hcode : Plain.nodes? (compiler.site "x") (.outermost compiler.options.autoescape) tree =
      some code := by
    decide +kernel
  exact (compiler.compileSource_eq_ok_iff rfl hparse rfl).2 ⟨hcode, by decide⟩

theorem extends_nothing : ∀ x ∈ Node.statements tree, x.isExtending = false := by decide +kernel

end Trellis

namespace Compiler

variable {c : Compiler} {d : Disk} {text source code : String} {tree : Template}

/-- **A loop keeps a record exactly where it is used.** No extension is asked, and the template
extends nothing and compiles as a page. Then its loops are those of the code, one by one. The
code of a loop sets its record up and brings it up to date exactly if the record is used in its
guard or its body, outside of loops inside. -/
theorem compileSource_keeps_records (hext : c.extensions = [])
    (hparse : c.parse text source = .ok tree)
    (hnone : ∀ x ∈ Node.statements tree, x.isExtending = false)
    (hcode : (exec (c.compileSource text source .page) d).1 = .ok (.code code)) :
    ∃ script, Node.Scripted (c.site source).rules (.outermost c.options.autoescape) tree script ∧
      Script.text script = code ∧
      List.Forall₂ (fun x s => s.Keeps x.ownsRecord) (Node.loops tree) (Script.loops script) := by
  obtain ⟨script, hscript, htext⟩ := page_scripted hext hparse hnone hcode
  exact ⟨script, hscript, htext, hscript.loops.imp fun x s h => h.keeps rfl⟩

/-- The first two loops keep a record, the others do not. -/
theorem compileSource_keeps_records_trellis :
    (Node.loops Trellis.tree).map Stmt.ownsRecord = [true, true, false, false] ∧
    (exec (Trellis.compiler.compileSource "" "x" .page) .empty).1 = .ok (.code Trellis.code) ∧
    ∃ script, Script.text script = Trellis.code ∧
      List.Forall₂ (fun x s => s.Keeps x.ownsRecord) (Node.loops Trellis.tree)
      (Script.loops script) := by
  obtain ⟨script, -, htext, hloops⟩ :=
    compileSource_keeps_records rfl rfl Trellis.extends_nothing Trellis.compiles
  exact ⟨by decide +kernel, Trellis.compiles, script, htext, hloops⟩

/-- **Which records have been set up when they are read.** No extension is asked, and the
template extends nothing and compiles as a page. Wherever its code reads the record of a loop,
but for what loops run over, it stands in the guard or the body of that loop, which keeps a
record. A record that is read in what a loop runs over is that of the loop itself. So all
records have been set up when they are read exactly if no loop runs over something in which
one is read. -/
theorem compileSource_initialises (hext : c.extensions = [])
    (hparse : c.parse text source = .ok tree)
    (hnone : ∀ x ∈ Node.statements tree, x.isExtending = false)
    (hcode : (exec (c.compileSource text source .page) d).1 = .ok (.code code)) :
    ∃ script, Node.Scripted (c.site source).rules (.outermost c.options.autoescape) tree script ∧
      Script.text script = code ∧ Script.Initialised false [] script ∧
      List.Forall₂ (fun x s => s.sourceReads = if x.sourceUsesLoop then s.loopDepth else none)
        (Node.loops tree) (Script.loops script) ∧
      (Script.Initialised true [] script ↔
        ∀ x ∈ Node.statements tree, x.sourceUsesLoop = false) := by
  obtain ⟨script, hscript, htext⟩ := page_scripted hext hparse hnone hcode
  have hreads : ∀ sources, Script.Initialised sources [] script ↔
      (sources = true → ∀ x ∈ Node.statements tree, x.sourceUsesLoop = false) := fun sources =>
    hscript.initialised rfl (fun _ hd => absurd hd List.not_mem_nil) fun _ hpos =>
      absurd hpos (Nat.lt_irrefl 0)
  refine ⟨script, hscript, htext, (hreads false).2 nofun,
    hscript.loops.imp fun x s h => h.sourceReads, ?_⟩
  rw [hreads true]
  exact ⟨fun h => h rfl, fun h _ => h⟩

/-- Two loops run over something of their own record. -/
theorem compileSource_initialises_trellis :
    (Node.loops Trellis.tree).map Stmt.sourceUsesLoop = [false, false, true, true] ∧
    (exec (Trellis.compiler.compileSource "" "x" .page) .empty).1 = .ok (.code Trellis.code) ∧
    ∃ script, Script.text script = Trellis.code ∧
      Script.Initialised false [] script ∧ ¬ Script.Initialised true [] script := by
  obtain ⟨script, -, htext, hinit, -, hiff⟩ :=
    compileSource_initialises rfl rfl Trellis.extends_nothing Trellis.compiles
  refine ⟨by decide +kernel, Trellis.compiles, script, htext, hinit, fun hall => ?_⟩
  have hlast := hiff.1 hall (.forIn "x" none (some (.var "loop")) none [])
    (by simp [Trellis.tree, Node.statements,
    Stmt.statements])
  exact absurd hlast (by decide)

/-- An outermost loop that runs over a variable of the name runs over its own record. -/
theorem source_reads_own_record :
    (exec (({ Compiler.initial with
      makeStem := some fun _ => "v"
      parse := fun _ _ =>
      .ok [.mk (.forIn "item" none (some (.var "loop")) none []) .unknown] } :
    Compiler).compileSource
      "" "x" .page) .empty).1 =
    .ok (.code "<?php foreach ($v1loop as $item) \x7b ?><?php \x7d ?>") := by
  rfl

end Compiler
end Stencil
