/-
# Emissions of trees give plain code

The pass over statements that carries on `Stencil.Proofs.Emitted`: a tree in
which no template is named by a literal is emitted to its plain code. Where the
parent's block is printed, the statement that stands for it is emitted.

Key definitions: `Emit.Scene.Fits`, `Emit.Scene.Whole`.
Key theorems: `Emit.loop_emits`, `Emit.stmt_emits`, `Emit.nodes_emits`, `Emit.list_emits`.
-/
import Stencil.Emit.Stmt
import Stencil.Proofs.Emitted
import Stencil.Proofs.Lookup

namespace Stencil
namespace Emit

open Plain (Spot)

/-- A call of the parent's block. -/
def superCall : Expr := .call (.var "super") []

/-- The statement may stand in the tree: it names no template by a literal, is no
block if there are none, and calls the parent's block only to print it. -/
structure Scene.Fits (K : Scene) (x : Stmt) : Prop where
  link : x.link? = none
  block : K.bare = true → x.isBlock = false
  exprs : (K.plug ≠ none ∧ x = .echo (some superCall)) ∨ ∀ e ∈ x.exprs, e.all K.admits = true

/-- The statement that stands for printing the parent's block is what that emits. -/
structure Scene.Whole (K : Scene) : Prop extends K.Simple where
  notForElse : K.plug ≠ some .forElse
  plugged : ∀ r, K.plug = some r → ∀ k,
    Emits K k r.macroNames r.usesLoop (Plain.stmt? K.site k r) (echo K.env (some superCall))

section
variable {K : Scene} {k : Spot} {names : List String} {u : Bool}

/-! ### Statements without a body -/

theorem required_bind_emits {α β : Type} (part : Stmt.Part) {a : Option α} {f : α → EmitM β}
    {g : α → Option β} (h : ∀ x, a = some x → Emits K k names u (g x) (f x)) :
    Emits K k names u (a >>= g) (required K.env part a >>= f) := by
  cases a with
  | some x =>
    have hrequired : required K.env part (some x) = Pure.pure x := rfl
    rw [hrequired, pure_bind]
    exact h x rfl
  | none =>
    refine .never fun s b s' he => ?_
    obtain ⟨_, _, hfail, -⟩ := exec_bind_eq_ok.1 he
    cases hfail

/-- Code made from an expression that a statement cannot do without. -/
theorem operand_emits (H : K.Simple) (part : Stmt.Part) (e : Option Expr) (f : String → String)
    (h : ∀ x ∈ e.toList, x.all K.admits = true) :
    Emits K k [] (Expr.usesLoopOption e)
      (e >>= fun e => Plain.expr? K.site k.depth e >>= fun code => some (f code))
      (required K.env part e >>= fun e => expr K.env e >>= fun code => Pure.pure (f code)) := by
  refine required_bind_emits part fun e' he => ?_
  subst he
  exact (expr_emits H e' k (h e' (by simp))).bind_pure f

theorem expr?_emits (H : K.Simple) (e : Option Expr) (h : ∀ x ∈ e.toList, x.all K.admits = true) :
    Emits K k [] (Expr.usesLoopOption e) (Plain.optional? K.site k.depth e) (expr? K.env e) := by
  cases e with
  | none => exact .pure none
  | some e => exact (expr_emits H e k (h e (by simp))).map some

theorem echo_emits (H : K.Simple) (e : Expr) (h : e.all K.admits = true) :
    Emits K k [] e.usesLoop (Plain.echo? K.site k e) (echo K.env (some e)) := by
  have hrequired : required K.env .expr (some e) = Pure.pure e := rfl
  unfold echo
  rw [hrequired, pure_bind]
  have printed : ∀ code, Emits K (k.using e.usesLoop) [] false
      (some (if e.isSuper then code
        else if k.autoescape then Code.printEscaped code else Code.print code))
      (if e.isSuper then Pure.pure code
        else get >>= fun s =>
          if s.autoescape then Pure.pure (Code.printEscaped code)
            else Pure.pure (Code.print code)) := by
    intro code
    by_cases hsuper : e.isSuper
    · rw [if_pos hsuper, if_pos hsuper]
      exact .pure code
    · rw [if_neg hsuper, if_neg hsuper]
      refine Emits.get_bind fun s hs => ?_
      rw [hs.autoescape, Spot.using_autoescape]
      by_cases hauto : k.autoescape
      · rw [if_pos hauto, if_pos hauto]
        exact Emits.pure _ s hs
      · rw [if_neg hauto, if_neg hauto]
        exact Emits.pure _ s hs
  refine ((expr_emits H e k h).bind printed).cast rfl (Bool.or_false _) ?_
  unfold Plain.echo?
  cases Plain.expr? K.site k.depth e <;> rfl

theorem assignments_emits (H : K.Simple) : ∀ (as : List Assignment) (k : Spot),
    (∀ a ∈ as, ∀ x ∈ a.target :: a.value.toList, x.all K.admits = true) →
    Emits K k [] (as.any Assignment.usesLoop) (Plain.assignments? K.site k.depth as)
      (assignments K.env as)
  | [], k, _ => by rw [assignments, Plain.assignments?]; exact .pure ""
  | a :: rest, k, h => by
    have ha := h a List.mem_cons_self
    rw [assignments, Plain.assignments?]
    refine required_bind_emits .value fun e he => ?_
    have hvalue := expr_emits H e k (ha e (by simp [he]))
    refine (hvalue.bind fun value => (expr_emits H a.target _ (ha _ List.mem_cons_self)).bind
      fun target =>
        (assignments_emits H rest _ fun b hb => h b (List.mem_cons_of_mem _ hb)).bind_pure
        fun code => " " ++ Code.between target a.op.sign value ++ ";" ++ code).cast rfl ?_ rfl
    simp [Assignment.usesLoop, he, Expr.usesLoopOption, Bool.or_assoc]

theorem assign_emits (H : K.Simple) (as : List Assignment)
    (h : ∀ a ∈ as, ∀ x ∈ a.target :: a.value.toList, x.all K.admits = true) :
    Emits K k [] (as.any Assignment.usesLoop) (Plain.stmt? K.site k (.assign as))
      (assign K.env as) := by
  unfold assign
  rw [Plain.stmt?]
  by_cases hempty : as.isEmpty
  · rw [if_pos hempty, if_pos hempty]
    exact .fail _
  · rw [if_neg hempty, if_neg hempty]
    refine ((assignments_emits H as k h).bind_pure fun code =>
      "<?php" ++ code ++ " ?>").cast rfl rfl ?_
    cases Plain.assignments? K.site k.depth as <;> rfl

theorem includeView_emits (H : K.Simple) (path params : Option Expr)
    (hlink : (Stmt.including path params).link? = none)
    (h : ∀ x ∈ path.toList ++ params.toList, x.all K.admits = true) :
    Emits K k [] (Expr.usesLoopOption path || Expr.usesLoopOption params)
      (Plain.include? K.site k.depth path params) (includeView K.env path params) := by
  unfold includeView Plain.include?
  refine required_bind_emits .path fun e he => ?_
  subst he
  have hpath := expr_emits H e k (h e (by simp))
  cases params with
  | none =>
    have single : Emits K k [] (e.usesLoop || false)
        (Plain.expr? K.site k.depth e >>= fun code =>
          some (Code.sect (Code.apply "$this->partial" code ++ ";")))
        (expr K.env e >>= fun code =>
          Pure.pure (Code.sect (Code.apply "$this->partial" code ++ ";"))) :=
      (hpath.bind_pure _).cast rfl (Bool.or_false _).symm rfl
    cases e with
    | str path => simp [Stmt.link?] at hlink
    | _ => exact single
  | some params =>
    have both := hpath.bind fun path => (expr_emits H params _ (h params (by simp))).bind_pure
      fun params => Code.sect (Code.apply "$this->partial" (Code.commas [path, params]) ++ ";")
    cases e with
    | _ => exact both

theorem forElse_emits : Emits K k [] false (Plain.stmt? K.site k .forElse) forElse := by
  refine Emits.get_bind fun s hs => ?_
  rw [Plain.stmt?, hs.depth, hs.branch, hs.used]
  cases k.branch with
  | none => exact Emits.pure _ s hs
  | some b => exact Emits.pure _ s hs

theorem parameters_emits (H : K.Simple) (name : String) :
    ∀ (ps : List Parameter) (i : Nat) (k : Spot),
    (∀ p ∈ ps, ∀ x ∈ p.fallback.toList, x.all K.admits = true) →
    Emits K k [] (ps.any (Expr.usesLoopOption ·.fallback))
      (Plain.parameters? K.site k.depth name i ps)
      (parameters K.env name i ps)
  | [], i, k, _ => by rw [parameters, Plain.parameters?]; exact .pure []
  | p :: rest, i, k, h => by
    have hp := h p List.mem_cons_self
    have next := fun (k' : Spot) (otherwise : String) =>
      (parameters_emits H name rest (i + 1) k' fun q hq =>
        h q (List.mem_cons_of_mem _ hq)).bind_pure
        fun codes => Code.Macro.parameter i p.name otherwise :: codes
    rw [parameters, Plain.parameters?, List.any_cons]
    cases hf : p.fallback with
    | none =>
      exact (Emits.pure (Code.Macro.refuse name p.name)).bind fun otherwise => next _ otherwise
    | some e =>
      have he := (expr_emits H e k (hp e (by simp [hf]))).map (Code.Macro.fallback p.name)
      exact he.bind fun otherwise => next _ otherwise

/-- Defining a macro whose name is not taken. -/
theorem defineMacro_emits (name : String) :
    Emits K k [name] false (some ⟨⟩) (defineMacro K.env name) := by
  refine Emits.get_bind fun s hs => ?_
  by_cases hmem : s.macros.contains name
  · rw [if_pos hmem]
    refine ⟨fun a s' he => ?_, fun a _ hfresh => ?_⟩
    · rw [exec_fail] at he
      cases he
    · exact absurd (by simpa using hmem) (hfresh.2 name List.mem_cons_self)
  · rw [if_neg hmem]
    refine ⟨fun a s' _ => ⟨rfl, by simp, by simpa using hmem⟩, fun a _ _ => ?_⟩
    refine ⟨_, rfl, rfl, fun _ _ => rfl, ?_, fun _ _ => rfl, by simp, hs.stem⟩
    simpa using hs.used

/-! ### Lists -/

theorem Emits.inStmt {α : Type} {r : Option α} {m : EmitM α} (pos : Position)
    (h : Emits K k names u r m) : Emits K k names u r (Emit.inStmt pos m) := by
  refine h.within (fun s hs => ?_) (fun _ => rfl) fun s s' hs hm => ?_
  · exact ⟨hs.autoescape, hs.depth, hs.branch, hs.used, hs.stem, hs.block, hs.parent, hs.inline,
      hs.rest⟩
  · have hf := hm.frame
    refine ⟨?_, hm.recorded, hm.used, hm.branches, hm.macros, hm.stem⟩
    rw [hf]

theorem Emits.inList {α : Type} {r : Option α} {m : EmitM α} (counted : Bool)
    (h : Emits K k names u r m) : Emits K k names u r (Emit.inList counted m) := by
  refine h.within (fun s hs => ?_) (fun _ => rfl) fun s s' hs hm => ?_
  · refine ⟨hs.autoescape, hs.depth, hs.branch, hs.used, hs.stem, hs.block, hs.parent, ?_, hs.rest⟩
    exact hs.inline.imp id fun ⟨hbare, hlevel⟩ =>
      ⟨hbare, Nat.lt_of_lt_of_le hlevel (Nat.le_add_right _ _)⟩
  · have hf := hm.frame
    refine ⟨?_, hm.recorded, hm.used, hm.branches, hm.macros, hm.stem⟩
    rw [hf]
    simp

theorem Emits.inAutoescape {α : Type} {r : Option α} {m : EmitM α} (enabled : Bool)
    (h : Emits K { k with autoescape := enabled } names u r m) :
    Emits K k names u r (Emit.inAutoescape enabled m) := by
  refine h.within (fun s hs => ?_) (fun _ => rfl) fun s s' hs hm => ?_
  · exact ⟨rfl, hs.depth, hs.branch, hs.used, hs.stem, hs.block, hs.parent, hs.inline, hs.rest⟩
  · have hf := hm.frame
    refine ⟨?_, hm.recorded, hm.used, hm.branches, hm.macros, hm.stem⟩
    rw [hf]

theorem place_eq {registering : Bool} {s : Stmt} (h : registering = true → s.isBlock = false)
    (code : String) (emit : EmitM String) :
    place registering code s emit =
      emit >>= fun more => Pure.pure (code ++ more, registering || s.isExtending) := by
  cases s with
  | block name body =>
    cases registering with
    | false => rfl
    | true => simp [Stmt.isBlock] at h
  | _ => cases registering <;> rfl

/-- A statement that is emitted where it stands. -/
theorem step_emits (H : K.Simple) (s : Stmt) (pos : Position) {registering : Bool}
    (hblock : registering = true → s.isBlock = false) (code : String) {r : Option String}
    (hext : s.isExtending = true → r = none) {m : EmitM String} (h : Emits K k names u r m) :
    Emits K k names u (r.map fun more => (code ++ more, registering))
      (step K.env (.mk s pos) registering code m) := by
  have hplace := (h.bind_pure fun more => (code ++ more, registering || s.isExtending))
  unfold step
  rw [H.handled]
  refine Emits.inStmt pos ?_
  dsimp only [Node.stmt]
  rw [place_eq hblock]
  refine hplace.cast rfl rfl ?_
  cases r with
  | none => rfl
  | some more =>
    have : s.isExtending = false := by
      cases hs : s.isExtending
      · rfl
      · cases hext hs
    simp [this]

/-- A statement list inside another one, or one of a page that extends nothing. -/
theorem sequence_emits {ns : List Node} {r : Option String}
    (h : ∀ registering, (registering = true → K.bare = true) →
      Emits K k names u (r.map fun code => (code, registering))
        (nodes K.env K.mode ns registering ""))
    (hnil : ns = [] → names = [] ∧ u = false ∧ r = some "") :
    Emits K k names u r (sequence K.mode ns.isEmpty fun registering =>
      nodes K.env K.mode ns registering "") := by
  cases ns with
  | nil =>
    obtain ⟨rfl, rfl, rfl⟩ := hnil rfl
    exact .pure ""
  | cons n ns =>
    refine Emits.get_bind fun s hs => ?_
    dsimp only
    have hreg : (s.extended || K.mode == .layout) = true → K.bare = true := by
      rcases hs.inline with ⟨hmode, hext⟩ | ⟨hbare, -⟩
      · simp [hmode, hext]
      · exact fun _ => hbare
    generalize hgen : (s.extended || K.mode == .layout) = registering at hreg
    have hlist := (h registering hreg).inList registering s hs
    have hr : r = (r.map fun code => (code, registering)) >>= fun p => some p.1 := by
      cases r <;> rfl
    rw [hr]
    refine hlist.bind_last fun p t hp hm => ?_
    obtain ⟨code, rfl, rfl⟩ : ∃ code, r = some code ∧ p = (code, registering) := by
      cases r with
      | none => cases hp
      | some code => exact ⟨code, rfl, by simpa using hp.symm⟩
    have hlevel : (registering && t.blockLevel == 0) = false := by
      have hf := hm.frame
      rcases hs.inline with ⟨hmode, hext⟩ | ⟨-, hpos⟩
      · have : registering = false := by simp [← hgen, hmode, hext]
        simp [this]
      · have : t.blockLevel = s.blockLevel := by rw [hf]
        have : (t.blockLevel == 0) = false := by
          rw [this, beq_eq_false_iff_ne]
          omega
        simp [this]
    refine .get_bind ?_
    dsimp only
    rw [hlevel]
    exact .pure trivial hm

/-! ### Loops -/

theorem lookup_filter_ne (l : List (Nat × Branch)) (d x : Nat) :
    (l.filter (·.1 != d)).lookup x = if x = d then none else l.lookup x := by
  induction l with
  | nil => simp
  | cons p rest ih =>
    obtain ⟨y, b⟩ := p
    by_cases hy : y = d
    · have hkeep : ((y, b) :: rest).filter (·.1 != d) = rest.filter (·.1 != d) := by simp [hy]
      rw [hkeep, ih, lookup_cons_ite, hy]
      by_cases hx : x = d <;> simp [hx]
    · have hkeep : ((y, b) :: rest).filter (·.1 != d) = (y, b) :: rest.filter (·.1 != d) := by
        simp [hy]
      rw [hkeep, lookup_cons_ite, lookup_cons_ite, ih]
      by_cases hx : x = y
      · simp [hx, hy]
      · simp [hx]

/-- What a loop's body is emitted in: nothing is known of an earlier loop of the same
depth, and the branch for nothing to loop over knows of this one. -/
def openLoop (depth : Nat) (stem : String) (guarded branched : Bool) (s : State) : State :=
  if branched then
    { s.clearLoop depth with branches := (depth, ⟨stem, guarded⟩) :: (s.clearLoop depth).branches }
  else s.clearLoop depth

theorem openLoop_at {s : State} {k' : Spot} (hs : At K k' s) (hd : k'.depth = k.depth + 1)
    (ha : k'.autoescape = k.autoescape) (stem : String) (guarded branched : Bool) :
    At K (k.enter stem guarded branched) (openLoop (k.depth + 1) stem guarded branched s) := by
  have hdepth : s.loopLevel = k.depth + 1 := hs.depth.trans hd
  have hused : (s.clearLoop (k.depth + 1)).recorded.contains (k.depth + 1) = false := by
    simp [State.clearLoop]
  have hbranch : (s.clearLoop (k.depth + 1)).branches.lookup (k.depth + 1) = none := by
    simp [State.clearLoop, lookup_filter_ne]
  unfold openLoop
  cases branched with
  | true =>
    refine ⟨hs.autoescape.trans ha, hdepth, ?_, hused, hs.stem, hs.block, hs.parent, hs.inline,
      hs.rest⟩
    simp [Spot.enter]
  | false =>
    exact ⟨hs.autoescape.trans ha, hdepth, hbranch, hused, hs.stem, hs.block, hs.parent, hs.inline,
      hs.rest⟩

theorem clearLoop_contains (s : State) {d x : Nat} (h : x ≠ d) :
    (s.clearLoop d).recorded.contains x = s.recorded.contains x := by
  simp [State.clearLoop, h]

theorem clearLoop_lookup (s : State) {d x : Nat} (h : x ≠ d) :
    (s.clearLoop d).branches.lookup x = s.branches.lookup x := by
  simp [State.clearLoop, lookup_filter_ne, h]

theorem openLoop_contains (s : State) {d x : Nat} (h : x ≠ d) (stem : String)
    (guarded branched : Bool) :
    (openLoop d stem guarded branched s).recorded.contains x = s.recorded.contains x := by
  rw [← clearLoop_contains s h]
  unfold openLoop
  split <;> rfl

theorem openLoop_lookup (s : State) {d x : Nat} (h : x ≠ d) (stem : String)
    (guarded branched : Bool) :
    (openLoop d stem guarded branched s).branches.lookup x = s.branches.lookup x := by
  rw [← clearLoop_lookup s h]
  unfold openLoop
  split
  · rw [lookup_cons_ite, if_neg h]
  · rfl

/-- Leaving a loop: what was known of the loops around it is known again. -/
theorem closeLoop_moved {s t₁ t₂ : State} (hs : At K k s) {k₁ : Spot} (hd : k₁.depth = k.depth + 1)
    (h₁ : Moved K k₁ [] { s with loopLevel := k.depth + 1 } t₁) (stem : String)
    (guarded branched : Bool)
    (h₂ : Moved K ((k.enter stem guarded branched).using u) names
      (openLoop (k.depth + 1) stem guarded branched t₁) t₂) :
    Moved K (k.using false) names s
      { t₂.clearLoop (k.depth + 1) with
        loopLevel := (t₂.clearLoop (k.depth + 1)).loopLevel - 1 } := by
  have hmacros : (openLoop (k.depth + 1) stem guarded branched t₁).macros = t₁.macros := by
    unfold openLoop
    split <;> rfl
  have recorded : ∀ x ≤ k.depth,
      (t₂.clearLoop (k.depth + 1)).recorded.contains x = s.recorded.contains x := by
    intro x hx
    have hne : x ≠ k.depth + 1 := by omega
    rw [clearLoop_contains t₂ hne, h₂.recorded x (Nat.lt_succ_of_le hx), openLoop_contains t₁ hne]
    exact h₁.recorded x (by omega)
  have branches : ∀ x ≤ k.depth,
      (t₂.clearLoop (k.depth + 1)).branches.lookup x = s.branches.lookup x := by
    intro x hx
    have hne : x ≠ k.depth + 1 := by omega
    rw [clearLoop_lookup t₂ hne, h₂.branches x (Nat.le_succ_of_le hx), openLoop_lookup t₁ hne]
    exact h₁.branches x (by omega)
  rw [Spot.using_false]
  refine ⟨?_, fun x hx => recorded x (Nat.le_of_lt hx), ?_, branches, fun n => ?_, h₂.stem⟩
  · have f₁ := h₁.frame
    have f₂ := h₂.frame
    have hopen : ∀ t : State, openLoop (k.depth + 1) stem guarded branched t =
        { t with
          recorded := (openLoop (k.depth + 1) stem guarded branched t).recorded
          branches := (openLoop (k.depth + 1) stem guarded branched t).branches } := by
      intro t
      unfold openLoop
      split <;> rfl
    rw [f₂, hopen, f₁]
    simp [State.clearLoop, ← hs.depth]
  · exact (recorded k.depth (Nat.le_refl _)).trans hs.used
  · have := h₂.macros n
    rw [hmacros, h₁.macros] at this
    show n ∈ t₂.macros ↔ _
    simpa using this

/-- Where what a loop runs over is emitted: one loop deeper, with what is still known
of an earlier loop of that depth. -/
def loopHead (k : Spot) (s : State) : Spot :=
  ⟨k.autoescape, k.depth + 1, s.branches.lookup (k.depth + 1), s.recorded.contains (k.depth + 1)⟩

/-- A loop, given its body at the spot inside it. -/
theorem loop_emits (H : K.Simple) (target : String) (key : Option String) (iterable : Expr)
    (guard : Option Expr) (branched : Bool) {m : EmitM String} {r : String → Option String}
    (hiterable : iterable.all K.admits = true) (hguard : ∀ x ∈ guard.toList, x.all K.admits = true)
    (hbody : ∀ stem,
      Emits K ((k.enter stem guard.isSome branched).using (Expr.usesLoopOption guard))
      names u (r stem) m) :
    Emits K k names false
      (do
        let stem := (← K.site.stem?) ++ toString (k.depth + 1)
        let source ← Plain.expr? K.site (k.depth + 1) iterable
        let g ← Plain.optional? K.site (k.depth + 1) guard
        let code ← r stem
        return Code.Loop.code ⟨stem, source, target, key, g, code,
          Expr.usesLoopOption guard || u, branched⟩)
      (loop K.env target key iterable guard branched m) := by
  intro s hs
  have hin : At K (loopHead k s) { s with loopLevel := k.depth + 1 } :=
    ⟨hs.autoescape, rfl, rfl, rfl, hs.stem, hs.block, hs.parent, hs.inline, hs.rest⟩
  unfold loop turn Emit.inLoop
  refine Yields.within (Q := fun t => Moved K (k.using false) names s
    { t with loopLevel := t.loopLevel - 1 }) ?_ fun t ht => ht
  refine .get_bind ?_
  dsimp only
  rw [hs.depth]
  refine (loopStem_emits _ hin).bind_fresh (fun t hm => hm.macros) fun stem t _ hm => ?_
  refine (expr_emits H iterable _ hiterable t (hm.at hin)).bind_fresh (fun t hm => hm.macros)
    fun source t₁ _ hm₁ => ?_
  rw [Spot.using_using] at hm₁
  have hmoved := hm.trans hm₁
  have hat := hmoved.at hin
  have hopen := fun stem => openLoop_at hat rfl rfl stem guard.isSome branched
  have inside : ∀ stem : String, Yields
      (do
        let guard ← expr? K.env guard
        let body ← m
        let recorded ← takeRecorded (k.depth + 1)
        return Code.Loop.code ⟨stem, source, target, key, guard, body, recorded, branched⟩)
      (openLoop (k.depth + 1) stem guard.isSome branched t₁)
      (Fresh names (openLoop (k.depth + 1) stem guard.isSome branched t₁).macros)
      (do
        let g ← Plain.optional? K.site (k.depth + 1) guard
        let code ← r stem
        return Code.Loop.code ⟨stem, source, target, key, g, code,
          Expr.usesLoopOption guard || u, branched⟩)
      fun t => Moved K (k.using false) names s { t with loopLevel := t.loopLevel - 1 } := by
    intro stem
    refine (expr?_emits H guard hguard _ (hopen stem)).bind_fresh (fun t hm => hm.macros)
      fun g t₂ _ hm₂ => ?_
    refine (hbody stem t₂ (hm₂.at (hopen stem))).bind_last fun code t₃ _ hm₃ => ?_
    rw [Spot.using_using] at hm₃
    have hboth := hm₂.trans hm₃
    have hrecorded : t₃.recorded.contains (k.depth + 1) = (Expr.usesLoopOption guard || u) := by
      simpa [Spot.enter, Spot.using] using hboth.used
    rw [takeRecorded, bind_assoc]
    refine .get_bind ?_
    rw [bind_assoc, hrecorded]
    exact .modify_bind
      (.pure trivial (closeLoop_moved hs rfl hmoved stem guard.isSome branched hboth))
  refine .modify_bind ?_
  unfold noteBranch
  cases branched with
  | true => exact .modify_bind (inside _)
  | false => exact inside _

end

/-! ### Trees -/

section
variable {K : Scene}

/-- A body, given its statements one after another. -/
theorem body_emits {ns : List Node} {k : Spot}
    (h : ∀ registering code, (registering = true → K.bare = true) →
      Emits K k (Node.macroNames (Node.plug K.plug ns)) (Node.usesLoop (Node.plug K.plug ns))
        ((Plain.nodes? K.site k (Node.plug K.plug ns)).map fun more => (code ++ more, registering))
        (nodes K.env K.mode ns registering code)) :
    Emits K k (Node.macroNames (Node.plug K.plug ns)) (Node.usesLoop (Node.plug K.plug ns))
      (Plain.nodes? K.site k (Node.plug K.plug ns))
      (sequence K.mode ns.isEmpty fun registering => nodes K.env K.mode ns registering "") := by
  refine sequence_emits (fun registering hreg => ?_) ?_
  · simpa using h registering "" hreg
  · rintro rfl
    exact ⟨rfl, rfl, rfl⟩

/-- The parts of a statement that is not the one something stands for. -/
theorem Scene.Fits.all {x : Stmt} (h : K.Fits x) (hx : x ≠ .echo (some superCall)) :
    ∀ e ∈ x.exprs, e.all K.admits = true := h.exprs.resolve_left fun ⟨_, he⟩ => hx he

/-- A template that extends another one has no plain code. -/
theorem stmt?_extending {s : Stmt} {k : Spot} {S : Plain.Site} {p : Option Stmt}
    (h : s.isExtending = true) : Plain.stmt? S k (s.plug p) = none := by
  cases s with
  | extending path => simp [Stmt.plug, Plain.stmt?]
  | _ => cases h

mutual

/-- The code of a statement is its plain code. -/
theorem stmt_emits (H : K.Whole) : ∀ (s : Stmt) (k : Spot), (∀ x ∈ s.statements, K.Fits x) →
    Emits K k (s.plug K.plug).macroNames (s.plug K.plug).usesLoop
      (Plain.stmt? K.site k (s.plug K.plug)) (stmt K.env K.mode s)
  | .text value, k, _ => by rw [stmt]; exact .pure value
  | .echo none, k, _ => by
    rw [stmt]
    exact required_bind_emits .expr fun e he => by cases he
  | .echo (some e), k, h => by
    have hfits := (h _ List.mem_cons_self).exprs
    rw [stmt]
    rcases hfits with ⟨hplug, he⟩ | he
    · obtain ⟨r, hr⟩ := Option.ne_none_iff_exists'.1 hplug
      cases he
      have hstands : (Stmt.echo (some superCall)).plug K.plug = r := by
        simp [Stmt.plug, superCall, Expr.isSuper, hr]
      rw [hstands]
      exact H.plugged r hr k
    · have hadmits := he e (by simp [Stmt.exprs])
      have hstays : (Stmt.echo (some e)).plug K.plug = .echo (some e) := by
        have := Expr.all_self hadmits
        simp only [Scene.admits, Bool.or_eq_true, Option.isNone_iff_eq_none] at this
        rcases this with hnone | hsuper
        · rw [hnone, Stmt.plug_none]
        · simp only [Bool.not_eq_true'] at hsuper
          simp [Stmt.plug, hsuper]
      rw [hstays]
      exact echo_emits H.toSimple e hadmits
  | .ifThen condition body elseBody, k, h => by
    have he := (h _ List.mem_cons_self).all (by simp)
    simp only [Stmt.statements, List.mem_cons, List.mem_append] at h
    simp only [stmt, Stmt.plug, Plain.stmt?]
    refine required_bind_emits .condition fun e hc => ?_
    subst hc
    have hcond := expr_emits H.toSimple e k (he e (by simp [Stmt.exprs]))
    have hbody := body_emits fun r code hr => nodes_emits H body (k.using e.usesLoop) r code
      (fun x hx => h x (.inr (.inl hx))) hr
    have helse := elseCode_emits H elseBody
      ((k.using e.usesLoop).using (Node.usesLoop (Node.plug K.plug body)))
      (fun x hx => h x (.inr (.inr hx)))
    refine (hcond.bind fun c => hbody.bind fun b => helse.bind_pure fun o =>
      Code.ifOpen c ++ b ++ o ++ Code.close).cast ?_ ?_ ?_
    · simp [Stmt.macroNames_ifThen]
    · simp [Stmt.usesLoop, Expr.usesLoopOption, Bool.or_assoc]
    · simp [Expr.usesLoopOption]
  | .elseIf condition, k, h => by
    have he := (h _ List.mem_cons_self).all (by simp)
    simp only [stmt, Stmt.plug, Plain.stmt?]
    exact operand_emits H.toSimple .condition condition Code.elseIf he
  | .switchOn subject cases, k, h => by
    have he := (h _ List.mem_cons_self).all (by simp)
    simp only [Stmt.statements, List.mem_cons] at h
    simp only [stmt, Stmt.plug, Plain.stmt?]
    refine required_bind_emits .expr fun e hc => ?_
    subst hc
    have hsubject := expr_emits H.toSimple e k (he e (by simp [Stmt.exprs]))
    have hcases := body_emits fun r code hr => nodes_emits H cases (k.using e.usesLoop) r code
      (fun x hx => h x (.inr hx)) hr
    exact hsubject.bind fun s => hcases.bind_pure fun c =>
      Code.sect ("switch (" ++ s ++ "):") ++ Text.tidy c ++ Code.sect "endswitch"
  | .caseOf value, k, h => by
    have he := (h _ List.mem_cons_self).all (by simp)
    simp only [stmt, Stmt.plug, Plain.stmt?]
    exact operand_emits H.toSimple .expr value (fun code => Code.sect ("case " ++ code ++ ":")) he
  | .caseDefault, k, _ => by rw [stmt]; exact .pure _
  | .forIn target key iterable guard body, k, h => by
    have he := (h _ List.mem_cons_self).all (by simp)
    simp only [Stmt.statements, List.mem_cons] at h
    simp only [stmt, Stmt.plug, Plain.stmt?, Node.any_isForElse_plug H.notForElse]
    refine required_bind_emits .iterable fun e hc => ?_
    subst hc
    have hbody := fun stem => body_emits fun r code hr => nodes_emits H body
      ((k.enter stem guard.isSome (body.any Node.isForElse)).using (Expr.usesLoopOption guard))
      r code (fun x hx => h x (.inr hx)) hr
    exact loop_emits H.toSimple target key e guard _ (he e (by simp [Stmt.exprs]))
      (fun x hx => he x (by simp_all [Stmt.exprs])) hbody
  | .forElse, k, _ => by rw [stmt]; exact forElse_emits
  | .assign as, k, h => by
    have he := (h _ List.mem_cons_self).all (by simp)
    rw [stmt]
    refine assign_emits H.toSimple as fun a ha x hx => he x ?_
    exact List.mem_flatMap.2 ⟨a, ha, hx⟩
  | .block name body, k, h => by
    simp only [Stmt.statements, List.mem_cons] at h
    simp only [stmt, Stmt.plug, Plain.stmt?]
    exact body_emits fun r code hr => nodes_emits H body k r code (fun x hx => h x (.inr hx)) hr
  | .extending path, k, h => by
    have hlink := (h _ List.mem_cons_self).link
    rw [stmt]
    refine Emits.never fun s a s' he => ?_
    obtain ⟨_, _, hextend, -⟩ := exec_bind_eq_ok.1 he
    cases path with
    | none => cases hextend
    | some e =>
      cases e with
      | str path => cases hlink
      | _ => cases hextend
  | .including path params, k, h => by
    have hself := h _ List.mem_cons_self
    have he := hself.all (by simp)
    rw [stmt]
    exact includeView_emits H.toSimple path params hself.link he
  | .macroDef name params body, k, h => by
    have he := (h _ List.mem_cons_self).all (by simp)
    simp only [Stmt.statements, List.mem_cons] at h
    simp only [stmt, Stmt.plug, Plain.stmt?]
    have hparams := parameters_emits H.toSimple name params 0 (k.using false)
      fun p hp x hx => he x (List.mem_flatMap.2 ⟨p, hp, hx⟩)
    have hbody := body_emits fun r code hr => nodes_emits H body
      ((k.using false).using (params.any (Expr.usesLoopOption ·.fallback))) r code
      (fun x hx => h x (.inr hx)) hr
    refine ((defineMacro_emits name).bind fun _ => hparams.bind fun given =>
      hbody.bind_pure fun code =>
      Code.Macro.code name given code).cast rfl ?_ ?_
    · simp [Stmt.usesLoop]
    · simp
  | .evaluate e, k, h => by
    have he := (h _ List.mem_cons_self).all (by simp)
    simp only [stmt, Stmt.plug, Plain.stmt?]
    exact operand_emits H.toSimple .expr e (fun code => Code.sect (code ++ ";")) he
  | .returning e, k, h => by
    have he := (h _ List.mem_cons_self).all (by simp)
    simp only [stmt, Stmt.plug, Plain.stmt?]
    exact operand_emits H.toSimple .expr e (fun code => Code.sect ("return " ++ code ++ ";")) he
  | .autoescape enabled body, k, h => by
    simp only [Stmt.statements, List.mem_cons] at h
    simp only [stmt, Stmt.plug, Plain.stmt?]
    refine required_bind_emits .enabled fun b hb => Emits.inAutoescape b ?_
    exact body_emits fun r code hr => nodes_emits H body _ r code (fun x hx => h x (.inr hx)) hr
  | .continueLoop, k, _ => by rw [stmt]; exact .pure _
  | .breakLoop, k, _ => by rw [stmt]; exact .pure _
  | .cached key lifetime body, k, h => by
    have he := (h _ List.mem_cons_self).all (by simp)
    simp only [Stmt.statements, List.mem_cons] at h
    simp only [stmt, Stmt.plug, Plain.stmt?]
    refine required_bind_emits .key fun e hc => ?_
    subst hc
    have hkey := expr_emits H.toSimple e k (he e (by simp [Stmt.exprs]))
    have hlife := expr?_emits (k := k.using e.usesLoop) H.toSimple lifetime
      fun x hx => he x (by simp_all [Stmt.exprs])
    have hbody := body_emits fun r code hr => nodes_emits H body
      ((k.using e.usesLoop).using (Expr.usesLoopOption lifetime)) r code
        (fun x hx => h x (.inr hx)) hr
    refine (hkey.bind fun c => hlife.bind fun l => hbody.bind_pure fun b => Code.cached c l b).cast
      rfl ?_ ?_
    · simp [Stmt.usesLoop, Expr.usesLoopOption, Bool.or_assoc]
    · simp [Expr.usesLoopOption]
  | .unknown, k, _ => by rw [stmt]; exact .fail _

theorem elseCode_emits (H : K.Whole) : ∀ (ns : Option (List Node)) (k : Spot),
    (∀ x ∈ Node.statementsOption ns, K.Fits x) →
    Emits K k (Node.macroNamesOption (Node.plugOption K.plug ns))
      (Node.usesLoopOption (Node.plugOption K.plug ns))
      (Plain.elseCode? K.site k (Node.plugOption K.plug ns)) (elseCode K.env K.mode ns)
  | none, k, _ => by rw [elseCode]; exact .pure ""
  | some body, k, h => by
    rw [elseCode]
    exact (body_emits fun r code hr => nodes_emits H body k r code h hr).bind_pure
      fun code => Code.elseOpen ++ code

theorem nodes_emits (H : K.Whole) :
    ∀ (ns : List Node) (k : Spot) (registering : Bool) (code : String),
    (∀ x ∈ Node.statements ns, K.Fits x) → (registering = true → K.bare = true) →
    Emits K k (Node.macroNames (Node.plug K.plug ns)) (Node.usesLoop (Node.plug K.plug ns))
      ((Plain.nodes? K.site k (Node.plug K.plug ns)).map fun more => (code ++ more, registering))
      (nodes K.env K.mode ns registering code)
  | [], k, registering, code, _, _ => by
    rw [nodes]
    exact (Emits.pure (code, registering)).cast rfl rfl (by simp [Node.plug, Plain.nodes?])
  | .mk s pos :: rest, k, registering, code, h, hreg => by
    simp only [Node.statements, List.mem_append] at h
    have hself : s ∈ s.statements := Stmt.mem_statements s
    have hs := stmt_emits H s k fun x hx => h x (.inl hx)
    have hstep := step_emits H.toSimple s pos
      (fun hr => (h s (.inl hself)).block (hreg hr)) code stmt?_extending hs
    have hrest : ∀ p, ((Plain.stmt? K.site k (s.plug K.plug)).map fun more =>
        (code ++ more, registering)) = some p →
        Emits K (k.using (s.plug K.plug).usesLoop) (Node.macroNames (Node.plug K.plug rest))
          (Node.usesLoop (Node.plug K.plug rest))
          ((Plain.nodes? K.site (k.using (s.plug K.plug).usesLoop) (Node.plug K.plug rest)).map
            fun more => (p.1 ++ more, p.2))
          (nodes K.env K.mode rest p.2 p.1) := by
      intro p hp
      obtain ⟨more, -, rfl⟩ := Option.map_eq_some_iff.1 hp
      exact nodes_emits H rest _ registering _ (fun x hx => h x (.inr hx)) hreg
    rw [nodes]
    refine (hstep.bind_of hrest).cast ?_ ?_ ?_
    · rw [Node.plug, Node.macroNames_cons]
    · rw [Node.plug, Node.usesLoop]
    · rw [Node.plug, Plain.nodes?]
      cases Plain.stmt? K.site k (s.plug K.plug) with
      | none => rfl
      | some more =>
        cases hn : Plain.nodes? K.site (k.using (s.plug K.plug).usesLoop)
          (Node.plug K.plug rest) with
        | none => simp
        | some code => simp [String.append_assoc]

end

/-- The code of a statement list is its plain code. -/
theorem list_emits (H : K.Whole) (ns : List Node) (k : Spot)
    (h : ∀ x ∈ Node.statements ns, K.Fits x) :
    Emits K k (Node.macroNames (Node.plug K.plug ns)) (Node.usesLoop (Node.plug K.plug ns))
      (Plain.nodes? K.site k (Node.plug K.plug ns)) (list K.env K.mode ns) :=
  body_emits fun r code hr => nodes_emits H ns k r code h hr

end
end Emit
end Stencil
