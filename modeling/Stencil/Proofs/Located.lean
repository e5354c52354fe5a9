/-
# Errors point at the first fault

A page that brings in no other template fails to compile exactly if one of its statements has a
fault, and the error is that of the first one, at the place of the statement whose own part it is.
The place is a field of the state that is changed for each statement and changed back after it.
What has been compiled before, however deep it nests and whoever answers for it, leaves nothing
behind that an error could show but the names of its macros.

`Reports` says of an emission of statements what it comes upon, given the macros that are defined:
a first fault and its place, or the macros that are defined afterwards.

Key definitions: `Emit.Reports`.
Key theorems: `Emit.Reports.bind`, `Emit.stmt_reports`, `Compiler.compileTree_error_located`.
-/
import Stencil.Proofs.Congruence
import Stencil.Proofs.ExprFaults
import Stencil.Proofs.Pages

namespace Stencil

/-! ### Findings one after another -/

/-- The first of two lists of faults, and what comes after both. -/
theorem firstAt_append_bind (pos : Position) (fs gs : List Fault)
    (g : List String → Except (Position × Fault) (List String)) (defined : List String) :
    firstAt pos (fs ++ gs) defined >>= g = firstAt pos fs defined >>= fun d =>
      firstAt pos gs d >>= g := by
  cases fs <;> rfl

namespace Emit

/-- From a state in the midst of a page in which the macros `defined` are defined, the emission
fails with the fault that is `found`, at its place; if there is none, it gives a result in `Q` and
defines what is then defined. -/
def Reports {α : Type} (c : Compiler) (source : String) (pos : Position) (depth : Nat)
    (found : List String → Except (Position × Fault) (List String)) (m : EmitM α) (Q : α → Prop) :
    Prop :=
  ∀ defined s, Amid c source pos depth defined s →
    (∀ defined', found defined = .ok defined' →
      ∃ a t, exec m s = (.ok a, t) ∧ Q a ∧ Amid c source pos depth defined' t) ∧
    ∀ p f, found defined = .error (p, f) → ∃ t, exec m s = (.error (f.error (.of p source)), t)

section
variable {c : Compiler} {source : String} {pos : Position} {depth : Nat} {α β : Type}
  {g g' : List String → Except (Position × Fault) (List String)} {m : EmitM α} {Q : α → Prop}
  {R : β → Prop}

namespace Reports

theorem congr (heq : ∀ d, g d = g' d) (h : Reports c source pos depth g' m Q) :
    Reports c source pos depth g m Q := by
  obtain rfl : g = g' := funext heq
  exact h

theorem pure {a : α} (h : Q a) :
    Reports c source pos depth (survey c source []) (Pure.pure a) Q := by
  intro defined s hs
  refine ⟨fun d hd => ⟨a, s, rfl, h, ?_⟩, fun p f hf => by cases hf⟩
  obtain rfl : defined = d := Except.ok.inj hd
  exact hs

theorem bind {k : α → EmitM β} (h : Reports c source pos depth g m Q)
    (hk : ∀ a, Q a → Reports c source pos depth g' (k a) R) :
    Reports c source pos depth (fun d => g d >>= g') (m >>= k) R := by
  intro defined s hs
  obtain ⟨hok, herror⟩ := h defined s hs
  dsimp only
  cases hg : g defined with
  | error x =>
    obtain ⟨t, ht⟩ := herror x.1 x.2 hg
    refine ⟨fun d hd => (by cases hd), fun p f hf => ⟨t, ?_⟩⟩
    cases hf
    rw [exec_bind, ht]
  | ok d =>
    obtain ⟨a, t, ht, ha, hamid⟩ := hok d hg
    rw [exec_bind, ht]
    exact hk a ha d t hamid

/-- What comes after an emission in which there is nothing to find. -/
theorem after {k : α → EmitM β} (h : Reports c source pos depth (survey c source []) m Q)
    (hk : ∀ a, Q a → Reports c source pos depth g (k a) R) :
    Reports c source pos depth g (m >>= k) R :=
  h.bind hk

/-- There is nothing to find in what comes after. -/
theorem before {k : α → EmitM β} (h : Reports c source pos depth g m Q)
    (hk : ∀ a, Q a → Reports c source pos depth (survey c source []) (k a) R) :
    Reports c source pos depth g (m >>= k) R :=
  (h.bind hk).congr fun d => (bind_pure (g d)).symm

/-- Statements after other statements. -/
theorem append {vs ws : List Visit} {k : α → EmitM β}
    (h : Reports c source pos depth (survey c source vs) m Q)
    (hk : ∀ a, Q a → Reports c source pos depth (survey c source ws) (k a) R) :
    Reports c source pos depth (survey c source (vs ++ ws)) (m >>= k) R :=
  (h.bind hk).congr fun d => survey_append vs ws d

/-- An expression of the statement being emitted, and what is done with its code. -/
theorem meets {fs : List Fault} {e : Env → EmitM α} {a : α} {k : α → EmitM β} {env : Env}
    (H : env.Alone c source)
    (h : Meets c source depth fs e a) (hk : Reports c source pos depth g (k a) R) :
    Reports c source pos depth (fun d => firstAt pos fs d >>= g) (e env >>= k) R := by
  have hfirst : Reports c source pos depth (firstAt pos fs) (e env) (· = a) := by
    intro defined s hs
    obtain ⟨hok, herror⟩ := h env H pos defined s hs
    cases fs with
    | nil =>
      refine ⟨fun d hd => ?_, fun p f hf => by cases hf⟩
      obtain rfl : defined = d := Except.ok.inj hd
      obtain ⟨t, ht, hamid⟩ := hok rfl
      exact ⟨a, t, ht, rfl, hamid⟩
    | cons f rest =>
      refine ⟨fun d hd => (by cases hd), fun p f' hf => ?_⟩
      obtain ⟨rfl, rfl⟩ := Prod.mk.inj (Except.error.inj hf)
      exact herror f rfl
  exact hfirst.bind fun x hx => hx ▸ hk

theorem get_bind {k : State → EmitM α}
    (h : ∀ defined s, Amid c source pos depth defined s → Reports c source pos depth g (k s) Q) :
    Reports c source pos depth g (get >>= k) Q := by
  intro defined s hs
  rw [exec_bind, exec_get]
  exact h defined s hs defined s hs

theorem modify {upd : State → State}
    (h : ∀ defined s, Amid c source pos depth defined s → Amid c source pos depth defined (upd s)) :
    Reports c source pos depth (survey c source []) (modify upd) fun _ => True := by
  intro defined s hs
  refine ⟨fun d hd => ⟨_, upd s, rfl, trivial, ?_⟩, fun p f hf => by cases hf⟩
  obtain rfl : defined = d := Except.ok.inj hd
  exact h defined s hs

theorem within {enter : State → State} {leave : State → State → State} {pos' : Position}
    {depth' : Nat}
    (henter : ∀ defined s, Amid c source pos depth defined s →
      Amid c source pos' depth' defined (enter s))
    (hleave : ∀ defined defined' s t, Amid c source pos depth defined s →
      Amid c source pos' depth' defined' t →
      Amid c source pos depth defined' (leave s t))
    (h : Reports c source pos' depth' g m Q) :
    Reports c source pos depth g (Emit.within enter leave m) Q := by
  intro defined s hs
  obtain ⟨hok, herror⟩ := h defined _ (henter defined s hs)
  refine ⟨fun d hd => ?_, fun p f hf => ?_⟩
  · obtain ⟨a, t, ht, ha, hamid⟩ := hok d hd
    exact ⟨a, leave s t, by rw [exec_within, ht], ha, hleave defined d s t hs hamid⟩
  · obtain ⟨t, ht⟩ := herror p f hf
    exact ⟨leave s t, by rw [exec_within, ht]⟩

theorem inLoop (h : Reports c source pos (depth + 1) g m Q) :
    Reports c source pos depth g (Emit.inLoop m) Q := by
  refine h.within (fun _ s hs =>
    ⟨hs.pos, congrArg (· + 1) hs.depth, hs.macros, hs.stem, hs.block, hs.extended⟩)
    fun _ _ _ t _ ht => ⟨ht.pos, ?_, ht.macros, ht.stem, ht.block, ht.extended⟩
  show t.loopLevel - 1 = depth
  rw [ht.depth, Nat.add_sub_cancel]

theorem inList (counted : Bool) (h : Reports c source pos depth g m Q) :
    Reports c source pos depth g (Emit.inList counted m) Q :=
  h.within (fun _ _ hs => ⟨hs.pos, hs.depth, hs.macros, hs.stem, hs.block, hs.extended⟩)
    fun _ _ _ _ _ ht => ⟨ht.pos, ht.depth, ht.macros, ht.stem, ht.block, ht.extended⟩

theorem inAutoescape (enabled : Bool) (h : Reports c source pos depth g m Q) :
    Reports c source pos depth g (Emit.inAutoescape enabled m) Q :=
  h.within (fun _ _ hs => ⟨hs.pos, hs.depth, hs.macros, hs.stem, hs.block, hs.extended⟩)
    fun _ _ _ _ _ ht => ⟨ht.pos, ht.depth, ht.macros, ht.stem, ht.block, ht.extended⟩

/-- The place is that of the statement while it is emitted, and what it was afterwards. -/
theorem inStmt {pos' : Position} (h : Reports c source pos' depth g m Q) :
    Reports c source pos depth g (Emit.inStmt pos' m) Q :=
  h.within (fun _ _ hs => ⟨rfl, hs.depth, hs.macros, hs.stem, hs.block, hs.extended⟩)
    fun _ _ _ _ hs ht => ⟨hs.pos, ht.depth, ht.macros, ht.stem, ht.block, ht.extended⟩

end Reports

end

/-! ### Parts of statements -/

section
variable {c : Compiler} {source : String} {pos : Position} {depth : Nat} {α : Type}
  {g : List String → Except (Position × Fault) (List String)} {Q : α → Prop} {env : Env}

theorem fail_reports (H : env.Alone c source) (f : Fault) :
    Reports c source pos depth (firstAt pos [f]) (fail env f.error) Q := by
  intro defined s hs
  refine ⟨fun d hd => (by cases hd), fun p f' hf => ⟨s, ?_⟩⟩
  obtain ⟨rfl, rfl⟩ := Prod.mk.inj (Except.error.inj hf)
  rw [exec_fail, hs.pos, H.source]

/-- A part that the statement cannot do without, and what is done with it. -/
theorem required_reports (H : env.Alone c source) {β : Type} (part : Stmt.Part) (a : Option β)
    {k : β → EmitM α} (h : ∀ x, a = some x → Reports c source pos depth g (k x) Q) :
    Reports c source pos depth (fun d => firstAt pos (absent part a) d >>= g)
      (required env part a >>= k) Q := by
  cases a with
  | some x => exact h x rfl
  | none =>
    have hmissing : Reports c source pos depth (firstAt pos [.missing part])
        (required env part none : EmitM β)
        fun _ => False := fail_reports H (.missing part)
    exact hmissing.bind fun _ hfalse => hfalse.elim

variable (hc : c.Unfailing) (H : env.Alone c source)
include hc H

/-- An expression that the statement cannot do without. -/
theorem operand_reports (part : Stmt.Part) (e : Option Expr) {k : Expr → String → EmitM α}
    (h : ∀ x code, Reports c source pos depth g (k x code) Q) :
    Reports c source pos depth (fun d =>
      firstAt pos (Expr.faultsNeeded c source depth part e) d >>= g)
      (required env part e >>= fun x => expr env x >>= k x) Q := by
  cases e with
  | none => exact (required_reports H part none fun _ hx => by cases hx)
  | some x => exact .meets H (expr_meets hc source depth x) (h x _)

theorem expr?_reports (e : Option Expr) {k : Option String → EmitM α}
    (h : ∀ code, Reports c source pos depth g (k code) Q) :
    Reports c source pos depth (fun d => firstAt pos (Expr.faultsOption c source depth e) d >>= g)
      (expr? env e >>= k) Q := by
  cases e with
  | none => exact h none
  | some e => exact .meets H ((expr_meets hc source depth e).map some) (h _)

omit H in
/-- An expression that a statement cannot do without, in an emission of expressions only. -/
theorem needed_meets (part : Stmt.Part) (e : Option Expr) {gs : List Fault}
    {k : Env → String → EmitM α} {b : α}
    (h : Meets c source depth gs (fun env => k env (c.codeAt source depth (e.getD .null))) b) :
    Meets c source depth (Expr.faultsNeeded c source depth part e ++ gs)
      (fun env => required env part e >>= fun x => expr env x >>= k env) b := by
  cases e with
  | none =>
    have hmissing : Meets c source depth [.missing part]
        (fun env => required env part none) Expr.null :=
      .fail (.missing part) Expr.null
    exact hmissing.bind fun hnil => by cases hnil
  | some x => exact (expr_meets hc source depth x).bind fun _ => h

omit H in
theorem assignments_meets (as : List Assignment) :
    ∃ a, Meets c source depth
      (as.flatMap fun a => Expr.faultsNeeded c source depth .value a.value ++
        a.target.faults c source depth)
      (fun env => assignments env as) a := by
  induction as with
  | nil => exact ⟨"", .pure ""⟩
  | cons a rest ih =>
    obtain ⟨more, hmore⟩ := ih
    simp only [assignments, List.flatMap_cons, List.append_assoc]
    exact ⟨_, needed_meets hc .value a.value
      ((expr_meets hc source depth a.target).bind fun _ => hmore.ret _)⟩

omit H in
theorem parameters_meets (name : String) (i : Nat) (ps : List Parameter) :
    ∃ a, Meets c source depth (ps.flatMap fun p => Expr.faultsOption c source depth p.fallback)
      (fun env => parameters env name i ps) a := by
  induction ps generalizing i with
  | nil => exact ⟨[], .pure []⟩
  | cons p rest ih =>
    obtain ⟨more, hmore⟩ := ih (i + 1)
    simp only [parameters, List.flatMap_cons]
    cases p.fallback with
    | none => exact ⟨_, (Meets.pure _).bind fun _ => hmore.ret _⟩
    | some e => exact ⟨_, ((expr_meets hc source depth e).map _).bind fun _ => hmore.ret _⟩

theorem echo_reports (e : Option Expr) :
    Reports c source pos depth (fun d =>
      firstAt pos (Expr.faultsNeeded c source depth .expr e) d >>= survey c source [])
      (echo env e) fun _ => True := by
  refine operand_reports hc H .expr e fun x code => ?_
  cases x.isSuper with
  | true => exact .pure trivial
  | false =>
    refine .get_bind fun _ s _ => ?_
    cases s.autoescape <;> exact .pure trivial

theorem assign_reports (as : List Assignment) :
    Reports c source pos depth (fun d =>
      firstAt pos (Stmt.faults c source depth [] (.assign as)) d >>= survey c source [])
      (assign env as) fun _ => True := by
  simp only [assign, Stmt.faults]
  cases as.isEmpty with
  | true => exact fail_reports H (.missing .assignments)
  | false =>
    obtain ⟨code, hcode⟩ : ∃ code, Meets c source depth _ _ code := assignments_meets hc as
    exact .meets H hcode (.pure trivial)

/-- A template that is named by no literal, or gets parameters, is left to the view. -/
theorem includeView_reports (path params : Option Expr)
    (hlinked : (Stmt.including path params).isLinked = false) :
    Reports c source pos depth
      (fun d => firstAt pos (Stmt.faults c source depth [] (.including path params)) d >>=
        survey c source [])
      (includeView env path params) fun _ => True := by
  cases path with
  | none => exact required_reports (g := survey c source []) H .path none fun _ hx => by cases hx
  | some e =>
    simp only [Stmt.faults, Expr.faultsNeeded, absent, Option.isSome_some, if_true, List.nil_append]
    cases params with
    | none =>
      simp only [Expr.faultsOption, List.append_nil]
      cases e with
      | str p => cases hlinked
      | _ => exact .meets H (expr_meets hc source depth _) (.pure trivial)
    | some params =>
      have hboth : Reports c source pos depth
          (fun d => firstAt pos (e.faults c source depth ++ params.faults c source depth) d >>=
            survey c source [])
          (expr env e >>= fun path => expr env params >>= fun params =>
            pure (Code.sect (Code.apply "$this->partial" (Code.commas [path, params]) ++ ";")))
              fun _ => True :=
        .congr (firstAt_append_bind pos _ _ _) <|
          .meets H (expr_meets hc source depth e)
            (.meets H (expr_meets hc source depth params) (.pure trivial))
      cases e <;> exact hboth

omit hc in
/-- The macro is defined, unless its name is taken. -/
theorem defineMacro_reports (name : String) :
    Reports c source pos depth
      (fun d => firstAt pos (if name ∈ d then [.duplicateMacro name] else []) (d ++ [name]))
      (defineMacro env name) fun _ => True := by
  intro defined s hs
  dsimp only
  rw [defineMacro, exec_bind, exec_get]
  by_cases hmem : name ∈ defined
  · have htaken : s.macros.contains name = true := List.contains_iff_mem.2 ((hs.macros name).2 hmem)
    have hfail := fail_reports (Q := fun _ : PUnit => True) H (.duplicateMacro name) defined s hs
    simp only [if_pos hmem, htaken, if_true]
    exact hfail
  · have hfree : s.macros.contains name = false := by
      rw [← Bool.not_eq_true, List.contains_iff_mem, hs.macros name]
      exact hmem
    simp only [if_neg hmem, hfree]
    refine ⟨fun d hd => ⟨_, _, rfl, trivial, hs.pos, hs.depth, fun n => ?_, hs.stem, hs.block,
      hs.extended⟩,
      fun p f hf => by cases hf⟩
    obtain rfl : defined ++ [name] = d := Except.ok.inj hd
    simp [hs.macros n, or_comm]

theorem loop_reports (target : String) (key : Option String) (iterable : Expr) (guard : Option Expr)
    (branched : Bool)
    {body : EmitM String} {Q : String → Prop} (hbody : Reports c source pos (depth + 1) g body Q) :
    Reports c source pos depth
      (fun d => firstAt pos (c.stemFaults source) d >>= fun d =>
        firstAt pos (iterable.faults c source (depth + 1)) d >>= fun d =>
        firstAt pos (Expr.faultsOption c source (depth + 1) guard) d >>= g)
      (loop env target key iterable guard branched body) fun _ => True := by
  have hclear : ∀ depth', Reports c source pos (depth + 1) (survey c source [])
      (modify (·.clearLoop depth')) fun _ => True :=
    fun _ => .modify fun _ _ hs => ⟨hs.pos, hs.depth, hs.macros, hs.stem, hs.block, hs.extended⟩
  have hnote : ∀ branch : Branch, Reports c source pos (depth + 1) (survey c source [])
      (noteBranch (depth + 1) branch branched) fun _ => True := by
    intro branch
    unfold noteBranch
    cases branched with
    | true =>
      exact .modify fun _ _ hs => ⟨hs.pos, hs.depth, hs.macros, hs.stem, hs.block, hs.extended⟩
    | false => exact .pure trivial
  have htake : Reports c source pos (depth + 1) (survey c source []) (takeRecorded (depth + 1))
      fun _ => True :=
    .get_bind fun _ _ _ => (hclear _).after fun _ _ => .pure trivial
  unfold loop turn
  refine .inLoop (.get_bind fun _ s hs => ?_)
  rw [hs.depth]
  refine .meets H loopStem_meets (.meets H (expr_meets hc source (depth + 1) iterable) ?_)
  refine (hclear _).after fun _ _ => (hnote _).after fun _ _ => expr?_reports hc H guard fun _ => ?_
  exact hbody.before fun _ _ => htake.after fun _ _ => .pure trivial

end

/-! ### Statements -/

theorem place_false (code : String) (x : Stmt) (emit : EmitM String) :
    place false code x emit = emit >>= fun more => pure (code ++ more, x.isExtending) := by
  cases x <;> rfl

section
variable {c : Compiler} {source : String} {pos : Position} {depth : Nat}

/-- What a statement that defines no macro reports: its own faults, and then those of its bodies. -/
theorem Reports.own {α : Type} {m : EmitM α} {Q : α → Prop} {x : Stmt} (hname : x.macroName? = none)
    (hfaults : ∀ d, x.faults c source depth d = x.faults c source depth [])
    (h : Reports c source pos depth
      (fun d => firstAt pos (x.faults c source depth []) d >>=
        survey c source (x.visited c depth)) m Q) :
    Reports c source pos depth
      (fun d => (Visit.mk depth x pos).look c source d >>=
        survey c source (x.visited c depth)) m Q := by
  refine h.congr fun d => ?_
  rw [Visit.look, Visit.faults, hfaults d, hname, Option.toList_none, List.append_nil]

/-- What a statement list reports, given what its statements do. -/
theorem list_reports {env : Env} {ns : List Node}
    (h : Reports c source pos depth (survey c source (Node.visited c depth ns))
      (nodes env .page ns false "")
      fun p => p.2 = false) :
    Reports c source pos depth (survey c source (Node.visited c depth ns)) (list env .page ns)
      fun _ => True := by
  unfold list sequence
  cases ns with
  | nil => exact .pure trivial
  | cons n rest =>
    refine .get_bind fun _ s hs => ?_
    rw [hs.extended]
    refine (h.inList false).before fun r hr => ?_
    obtain ⟨code, registering⟩ := r
    cases hr
    exact .get_bind fun _ _ _ => .pure trivial

/-- A node is emitted at its own place, unless an extension answers for it. -/
theorem step_reports {env : Env} (H : env.Alone c source) (x : Stmt) (p : Position) (code : String)
    {emit : EmitM String} (hlinked : x.isLinked = false)
    (h : Reports c source p depth
      (fun d => (Visit.mk depth x p).look c source d >>= survey c source (x.visited c depth)) emit
      fun _ => True) :
    Reports c source pos depth
      (survey c source (if (c.handled (·.statement (.mk x p))).isSome then []
        else ⟨depth, x, p⟩ :: x.visited c depth))
      (step env (.mk x p) false code emit) fun r => r.2 = false := by
  simp only [step, H.compiler]
  cases c.handled (·.statement (.mk x p)) with
  | some answer => exact .inStmt (.pure rfl)
  | none =>
    refine .inStmt (.congr (survey_cons _ _) ?_)
    show Reports _ _ _ _ _ (place false code x emit) _
    rw [place_false]
    exact h.before fun _ _ => .pure (Stmt.isExtending_of_isLinked hlinked)

end

mutual

/-- A statement reports its own faults, and then those of its bodies. -/
theorem stmt_reports {c : Compiler} (hc : c.Unfailing) {source : String} {env : Env}
    (H : env.Alone c source)
    (pos : Position) (depth : Nat) (x : Stmt) (hlinked : ∀ y ∈ x.statements, y.isLinked = false) :
    Reports c source pos depth
      (fun d => (Visit.mk depth x pos).look c source d >>= survey c source (x.visited c depth))
      (stmt env .page x) fun _ => True := by
  cases x with
  | text _ | caseDefault | continueLoop | breakLoop =>
    simp only [stmt]
    exact .own rfl (fun _ => rfl) (.pure trivial)
  | echo e =>
    simp only [stmt]
    exact .own rfl (fun _ => rfl) (echo_reports hc H e)
  | ifThen condition body elseBody =>
    simp only [stmt]
    have hbody := list_reports <| nodes_reports hc H pos depth body "" fun y hy =>
      hlinked y (by simp [Stmt.statements, hy])
    have helse := elseCode_reports hc H pos depth elseBody fun y hy =>
      hlinked y (by simp [Stmt.statements, hy])
    refine .own rfl (fun _ => rfl) (operand_reports hc H .condition condition fun _ _ => ?_)
    exact hbody.append fun _ _ => helse.before fun _ _ => .pure trivial
  | elseIf condition =>
    simp only [stmt]
    exact .own rfl (fun _ => rfl) (operand_reports hc H .condition condition fun _ _ =>
      .pure trivial)
  | switchOn subject cases =>
    simp only [stmt]
    have hbody := list_reports <| nodes_reports hc H pos depth cases "" fun y hy =>
      hlinked y (by simp [Stmt.statements, hy])
    refine .own rfl (fun _ => rfl) (operand_reports hc H .expr subject fun _ _ => ?_)
    exact hbody.before fun _ _ => .pure trivial
  | caseOf value =>
    simp only [stmt]
    exact .own rfl (fun _ => rfl) (operand_reports hc H .expr value fun _ _ => .pure trivial)
  | forIn target key iterable guard body =>
    simp only [stmt]
    have hbody := list_reports <| nodes_reports hc H pos (depth + 1) body "" fun y hy =>
      hlinked y (by simp [Stmt.statements, hy])
    refine .own rfl (fun _ => rfl) ?_
    simp only [Stmt.faults, firstAt_append_bind]
    refine required_reports H .iterable iterable fun e he => ?_
    subst he
    exact loop_reports hc H target key e guard _ hbody
  | forElse =>
    simp only [stmt]
    refine .own rfl (fun _ => rfl) (.get_bind fun _ s _ => ?_)
    split <;> exact .pure trivial
  | assign as =>
    simp only [stmt]
    exact .own rfl (fun _ => rfl) (assign_reports hc H as)
  | block name body =>
    simp only [stmt]
    have hbody := list_reports <| nodes_reports hc H pos depth body "" fun y hy =>
      hlinked y (by simp [Stmt.statements, hy])
    exact .own rfl (fun _ => rfl) hbody
  | extending path => cases hlinked _ (Stmt.mem_statements _)
  | including path params =>
    simp only [stmt]
    exact .own rfl (fun _ => rfl)
      (includeView_reports hc H path params (hlinked _ (Stmt.mem_statements _)))
  | macroDef name params body =>
    simp only [stmt]
    have hbody := list_reports <| nodes_reports hc H pos depth body "" fun y hy =>
      hlinked y (by simp [Stmt.statements, hy])
    obtain ⟨ps, hps⟩ : ∃ ps, Meets c source depth _ _ ps := parameters_meets hc name 0 params
    refine ((defineMacro_reports H name).bind fun _ _ =>
      .meets H hps (hbody.before fun _ _ => .pure trivial)).congr
      fun d => ?_
    -- the faults of the parameters are the same whatever is defined
    by_cases hmem : name ∈ d
    · simp only [Visit.look, Visit.faults, Stmt.faults, if_pos hmem]
      rfl
    · simp only [Visit.look, Visit.faults, Stmt.faults, if_neg hmem]
      rfl
  | evaluate e =>
    simp only [stmt]
    exact .own rfl (fun _ => rfl) (operand_reports hc H .expr e fun _ _ => .pure trivial)
  | returning e =>
    simp only [stmt]
    exact .own rfl (fun _ => rfl) (operand_reports hc H .expr e fun _ _ => .pure trivial)
  | autoescape enabled body =>
    simp only [stmt]
    have hbody := list_reports <| nodes_reports hc H pos depth body "" fun y hy =>
      hlinked y (by simp [Stmt.statements, hy])
    exact .own rfl (fun _ => rfl) (required_reports H .enabled enabled fun b _ =>
      hbody.inAutoescape b)
  | cached key lifetime body =>
    simp only [stmt]
    have hbody := list_reports <| nodes_reports hc H pos depth body "" fun y hy =>
      hlinked y (by simp [Stmt.statements, hy])
    refine .own rfl (fun _ => rfl) ?_
    simp only [Stmt.faults, firstAt_append_bind]
    refine operand_reports hc H .key key fun _ _ => expr?_reports hc H lifetime fun _ => ?_
    exact hbody.before fun _ _ => .pure trivial
  | unknown =>
    simp only [stmt]
    exact .own rfl (fun _ => rfl) (fail_reports H .unknownStatement)

theorem elseCode_reports {c : Compiler} (hc : c.Unfailing) {source : String} {env : Env}
    (H : env.Alone c source) (pos : Position) (depth : Nat) (body : Option (List Node))
    (hlinked : ∀ y ∈ Node.statementsOption body, y.isLinked = false) :
    Reports c source pos depth (survey c source (Node.visitedOption c depth body))
      (elseCode env .page body)
      fun _ => True := by
  cases body with
  | none =>
    simp only [elseCode, Node.visitedOption]
    exact .pure trivial
  | some body =>
    simp only [elseCode, Node.visitedOption]
    exact (list_reports (nodes_reports hc H pos depth body "" hlinked)).before fun _ _ =>
      .pure trivial

theorem nodes_reports {c : Compiler} (hc : c.Unfailing) {source : String} {env : Env}
    (H : env.Alone c source) (pos : Position) (depth : Nat) (ns : List Node) (code : String)
    (hlinked : ∀ y ∈ Node.statements ns, y.isLinked = false) :
    Reports c source pos depth (survey c source (Node.visited c depth ns))
      (nodes env .page ns false code)
      fun p => p.2 = false := by
  cases ns with
  | nil =>
    simp only [nodes, Node.visited]
    exact .pure rfl
  | cons n rest =>
    obtain ⟨x, p⟩ := n
    simp only [nodes, Node.visited]
    have hx := stmt_reports hc H p depth x fun y hy => hlinked y (by simp [Node.statements, hy])
    have hself := hlinked x (by simp [Node.statements, Stmt.mem_statements])
    -- the place is `p` for this statement only, and `pos` again for the rest
    refine (step_reports H x p code hself hx).append fun r hr => ?_
    obtain ⟨code, registering⟩ := r
    cases hr
    exact nodes_reports hc H pos depth rest code fun y hy =>
      hlinked y (by simp [Node.statements, hy])

end

theorem page_reports {c : Compiler} (hc : c.Unfailing) {source : String} {env : Env}
    (H : env.Alone c source)
    (pos : Position) (tree : Template) (hlinked : ∀ y ∈ Node.statements tree, y.isLinked = false) :
    Reports c source pos 0 (survey c source (Node.visited c 0 tree)) (page env tree) fun _ =>
      True := by
  refine (list_reports (nodes_reports hc H pos 0 tree "" hlinked)).before fun code _ => ?_
  refine .get_bind fun _ s hs => ?_
  rw [hs.extended]
  exact .pure trivial

end Emit

/-- **Errors point at the first fault.** A page names no other template by a literal, and its
functions and filters do not fail; extensions may answer for what they like. It fails to compile
exactly if a statement that is compiled has a fault of its own, in a field, a name or an expression,
and no statement compiled before it has any. The error is that of the first fault of this statement,
in the order in which its parts are compiled, and a location that it carries is the place of this
statement. -/
theorem Compiler.compileTree_error_located {c : Compiler} {text source : String} {tree : Template}
    (nested : String → Mode → DiskM Output) (d : Disk) (hparse : c.parse text source = .ok tree)
    (hlinked : ∀ y ∈ Node.statements tree, y.isLinked = false) (hc : c.Unfailing)
    (e : CompileError) :
    (exec (c.compileTree nested text source .page) d).1 = .error e ↔
      ∃ before v after f, Node.visited c 0 tree = before ++ v :: after ∧
        (∀ b w a, before = b ++ w :: a → w.faults c source (Visit.names b) = []) ∧
        (v.faults c source (Visit.names before)).head? = some f ∧
        e = f.error (.of v.pos source) ∧ ∀ l, e.location? = some l → l = .of v.pos source := by
  obtain ⟨hok, herror⟩ := Emit.page_reports hc
    (Emit.alone_outer c source nested) .unknown tree hlinked []
    (.initial c.options.autoescape d) (Emit.initial_amid c source c.options.autoescape d 0)
  have hrun : (exec (c.compileTree nested text source .page) d).1 =
      (exec (Emit.page (.outer c source nested) tree)
        (.initial c.options.autoescape d)).1.map Output.code := by
    rw [exec_compileTree, hparse]
    simp only [exec_emit, emitTree, exec_map]
  rw [hrun]
  constructor
  · intro he
    cases hsurvey : survey c source (Node.visited c 0 tree) [] with
    | ok defined =>
      obtain ⟨code, t, ht, -⟩ := hok defined hsurvey
      rw [ht] at he
      cases he
    | error x =>
      obtain ⟨t, ht⟩ := herror x.1 x.2 hsurvey
      obtain ⟨before, v, after, hvisited, hpos, hclear, hfirst⟩ := survey_eq_error_iff.1 hsurvey
      rw [ht, hpos] at he
      obtain rfl : x.2.error (.of v.pos source) = e := Except.error.inj he
      exact ⟨before, v, after, x.2, hvisited, hclear, hfirst, rfl,
        fun l hl => Fault.eq_of_location? hl⟩
  · rintro ⟨before, v, after, f, hvisited, hclear, hfirst, rfl, -⟩
    obtain ⟨t, ht⟩ := herror v.pos f
      (survey_eq_error_iff.2 ⟨before, v, after, hvisited, rfl, hclear, hfirst⟩)
    rw [ht]
    rfl

namespace Chart

/-- A statement in a line. -/
def line (n : UInt32) (s : Stmt) : Node := .mk s ⟨none, some n⟩

/-- A macro, a statement that nobody knows, and a loop with a filter that nobody knows. The filter
is in the value of an assignment, whose target is not known either, and at the end the macro is
defined again. -/
def tree : Template :=
  [line 1 (.macroDef "row" [] [line 2 (.text "|")]), line 3 .unknown,
    line 4 (.forIn "x" none (some (.var "xs")) none
      [line 5 (.ifThen (some (.var "x")) [line 6 (.echo (some (.var "x")))] none),
        line 7 (.assign [⟨.unknown, .assign, some (.filter (.var "x") (.var "stars"))⟩])]),
    line 8 (.macroDef "row" [] [])]

/-- Answers for the statements in the third line. -/
def ruler : Extension :=
  { Extension.silent with statement := fun n => if n.pos.line = some 3 then some "<hr>" else none }

def compiler : Compiler :=
  { Compiler.initial with parse := fun _ _ => .ok tree, extensions := [ruler] }

theorem unfailing : compiler.Unfailing := by
  refine ⟨fun _ _ h => ?_, fun _ _ h => ?_⟩ <;> cases h

end Chart

/-- The filter is the first fault: the statement before the loop is answered for, and the value of
an assignment comes before its target. -/
theorem Compiler.compileTree_error_located_chart :
    (∀ y ∈ Node.statements Chart.tree, y.isLinked = false) ∧
      (exec (Chart.compiler.compileTree (fun _ _ => pure (.code "")) "" "chart" .page) .empty).1 =
        .error (.unknownFilter "stars" ⟨"chart", some 7⟩) ∧
      ∃ before v after, Node.visited Chart.compiler 0 Chart.tree = before ++ v :: after ∧
        (∀ b w a, before = b ++ w :: a → w.faults Chart.compiler "chart" (Visit.names b) = []) ∧
        (v.faults Chart.compiler "chart" (Visit.names before)).head? =
          some (.unknownFilter "stars") ∧
        Location.of v.pos "chart" = ⟨"chart", some 7⟩ := by
  have hlinked : ∀ y ∈ Node.statements Chart.tree, y.isLinked = false := by decide +kernel
  have herror :
      (exec (Chart.compiler.compileTree (fun _ _ => pure (.code "")) "" "chart" .page) .empty).1 =
      .error (.unknownFilter "stars" ⟨"chart", some 7⟩) := by rfl
  obtain ⟨before, v, after, f, hvisited, hclear, hfirst, he, hlocation⟩ :=
    (compileTree_error_located (fun _ _ =>
      pure (.code "")) .empty rfl hlinked Chart.unfailing _).1 herror
  refine ⟨hlinked, herror, before, v, after, hvisited, hclear, ?_, (hlocation _ rfl).symm⟩
  cases f with
  | unknownFilter name =>
    obtain ⟨rfl, -⟩ := CompileError.unknownFilter.inj he
    exact hfirst
  | _ => cases he

end Stencil
