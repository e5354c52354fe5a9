/-
# Literals inside of a switch

Blanks are reduced in all that is emitted between the opening of a switch and its end, in texts
of the template and in code alike. A literal in a case is therefore not always what it is outside
of a switch: it is the literal of its text with the blanks reduced, and this is the same text
exactly if there are no two blanks in a row and no blank beside the end of a line.

The code of the cases is a weave of texts and places of literals, and reducing blanks keeps every
place.

Key theorems: `Emit.stmt_weaves`, `Emit.list_weaves`, `Emit.switch_tidies_literals`.
-/
import Stencil.Proofs.LiteralPlaces
import Stencil.Proofs.Lockstep
import Stencil.Proofs.MacroNames

namespace Stencil
namespace Emit

/-! ### Parts of statements -/

/-- An optional code with its literals in a form. -/
def fillOption (form : String → String) (w : Option Weave) : Option String :=
  w.map (Weave.fill form)

/-- The code since the last block with its literals in a form. -/
def fillFirst (form : String → String) (p : Weave × Bool) : String × Bool := (p.1.fill form, p.2)

theorem clearLoop_blind (depth : Nat) : Blind (modify (·.clearLoop depth)) :=
  .modify fun _ blocks => ⟨blocks, rfl⟩

theorem noteBranch_blind (depth : Nat) (branch : Branch) (branched : Bool) :
    Blind (noteBranch depth branch branched) := by
  unfold noteBranch
  split
  · exact .modify fun _ blocks => ⟨blocks, rfl⟩
  · exact .pure _

theorem takeRecorded_blind (depth : Nat) : Blind (takeRecorded depth) :=
  .get_bind (fun _ _ => rfl) fun _ => (clearLoop_blind depth).bind fun _ => .pure _

theorem forElse_blind : Blind forElse := by
  refine .get_bind (fun _ _ => rfl) fun s => ?_
  split <;> exact .pure _

theorem register_blind (name : String) (body : List Node) : Blind (register name body) :=
  .modify fun _ _ => ⟨_, rfl⟩

theorem defineMacro_blind (env : Env) (name : String) : Blind (defineMacro env name) := by
  refine .get_bind (fun _ _ => rfl) fun s => ?_
  split
  · exact fun t => ⟨_, t, .fail env _ t⟩
  · exact .modify fun _ blocks => ⟨blocks, rfl⟩

theorem extendView_blind (env : Env) (path : Option Expr) : Blind (extendView env path) := by
  unfold extendView
  split
  · refine .get_bind (fun _ _ => rfl) fun s => ?_
    exact (Blind.onDisk _).bind fun _ => .modify fun _ blocks => ⟨blocks, rfl⟩
  · exact fun t => ⟨_, t, .fail env _ t⟩

theorem included_blind (env : Env) (path : String) : Blind (included env path) :=
  .get_bind (fun _ _ => rfl) fun _ => (Blind.onDisk _).bind fun _ => .pure _

theorem segment_weaves (w : Weave) :
    Weaves (fun _ (a : Unit) => a) (segment (w.fill Text.quote)) fun form =>
      segment (w.fill form) := by
  have hends : ∀ (code : String) (s : State), Ends (segment code) s (.ok ()) s := by
    intro code s
    unfold segment
    split
    · exact .pure () s
    · exact fun blocks => ⟨blocks.append code, rfl⟩
  exact fun s => ⟨.ok (), s, hends _ s, fun form _ => hends _ s⟩

/-- A part that a statement cannot do without, and what is done with it. -/
theorem required_weaves {env : Env} {F α β : Type} {fill : (String → String) → F → β}
    (part : Stmt.Part) (a : Option α) {k₀ : α → EmitM β} {k : (String → String) → α → EmitM β}
    (h : ∀ x, a = some x → Weaves fill (k₀ x) fun form => k form x) :
    Weaves fill (required env part a >>= k₀) fun form =>
      required (env.writing form) part a >>= k form := by
  cases a with
  | none => exact .fail env _
  | some x => exact h x rfl

section
variable {env : Env} (H : env.Weaving)
include H

theorem expr?_weaves (e : Option Expr) :
    Weaves fillOption (expr? env e) fun form => expr? (env.writing form) e := by
  cases e with
  | none => exact .pure ⟨none, fun _ _ => rfl⟩
  | some e => exact (expr_weaves H e).map some fun _ _ => rfl

/-- An expression that a statement cannot do without. -/
theorem operand_weaves {F β : Type} {fill : (String → String) → F → β} (part : Stmt.Part)
    (e : Option Expr) {k₀ : String → EmitM β} {k : (String → String) → String → EmitM β}
    (h : ∀ w : Weave, Weaves fill (k₀ (w.fill Text.quote)) fun form => k form (w.fill form)) :
    Weaves fill (required env part e >>= fun e => expr env e >>= k₀)
      fun form => required (env.writing form) part e >>= fun e =>
      expr (env.writing form) e >>= k form :=
  required_weaves part e fun x _ => (expr_weaves H x).bind h

theorem echo_weaves (e : Option Expr) :
    Weaves Weave.fill (echo env e) fun form => echo (env.writing form) e := by
  refine required_weaves .expr e fun x _ => (expr_weaves H x).bind fun w => ?_
  cases x.isSuper with
  | true => exact .woven (.fill w)
  | false =>
    refine .look (fun _ _ => rfl) (fun _ _ _ => rfl) fun s => ?_
    cases s.autoescape with
    | true => exact .woven (Code.weaving_printEscaped _ (.fill w))
    | false => exact .woven (Code.weaving_print _ (.fill w))

theorem assignments_weaves (as : List Assignment) :
    Weaves Weave.fill (assignments env as) fun form => assignments (env.writing form) as := by
  induction as with
  | nil => exact .woven (.text "")
  | cons a rest ih =>
    simp only [assignments]
    refine operand_weaves H .value a.value fun v => (expr_weaves H a.target).bind fun t =>
      ih.bind fun more => ?_
    exact .woven
      ((((Woven.text " ").append ((Woven.fill t).between _ (.fill v))).append (.text ";")).append
        (.fill more))

theorem assign_weaves (as : List Assignment) :
    Weaves Weave.fill (assign env as) fun form => assign (env.writing form) as := by
  unfold assign
  cases as.isEmpty with
  | true => exact .fail env _
  | false => exact (assignments_weaves H as).bind fun w => .woven ((Woven.fill w).around _ _)

theorem parameters_weaves (name : String) (i : Nat) (ps : List Parameter) :
    Weaves fillAll (parameters env name i ps) fun form =>
      parameters (env.writing form) name i ps := by
  induction ps generalizing i with
  | nil => exact .pure ⟨[], fun _ _ => rfl⟩
  | cons p rest ih =>
    have hparameter : Weaving (Code.Macro.parameter i p.name) := Code.weaving_around _ _
    have hfallback : Weaving (Code.Macro.fallback p.name) := Code.weaving_around _ _
    have hmore : ∀ w : Weave, Weaves fillAll
        (do return Code.Macro.parameter i p.name (w.fill Text.quote) ::
          (← parameters env name (i + 1) rest))
        fun form => do
          return Code.Macro.parameter i p.name (w.fill form) ::
            (← parameters (env.writing form) name (i + 1) rest) := by
      intro w
      obtain ⟨k, hk⟩ := hparameter _ (.fill w)
      exact (ih (i + 1)).bind fun ws =>
        .pure (g := fun form => Code.Macro.parameter i p.name (w.fill form) :: fillAll form ws)
          ⟨k :: ws, fun form hform => congrArg (· :: fillAll form ws) (hk form hform)⟩
    simp only [parameters]
    cases p.fallback with
    | none => exact (Weaves.woven (.text _)).bind hmore
    | some e => exact ((expr_weaves H e).weaving hfallback).bind hmore

theorem includeView_weaves (path params : Option Expr) :
    Weaves Weave.fill (includeView env path params) fun form =>
      includeView (env.writing form) path params := by
  have hpartial : Weaving fun x => Code.sect (Code.apply "$this->partial" x ++ ";") :=
    fun g h => Code.weaving_sect _ ((Code.weaving_apply _ g h).append (.text ";"))
  refine required_weaves .path path fun e _ => ?_
  cases params with
  | none =>
    cases e with
    | str p => exact .text (included_blind env p)
    | _ => exact (expr_weaves H _).bind fun w => .woven (hpartial _ (.fill w))
  | some params =>
    have hboth : Weaves Weave.fill
        (expr env e >>= fun path => expr env params >>= fun params =>
          pure (Code.sect (Code.apply "$this->partial" (Code.commas [path, params]) ++ ";")))
        fun form => expr (env.writing form) e >>= fun path =>
          expr (env.writing form) params >>= fun params =>
          pure (Code.sect (Code.apply "$this->partial" (Code.commas [path, params]) ++ ";")) :=
      (expr_weaves H e).bind fun w => (expr_weaves H params).bind fun v =>
        .woven (hpartial _ ((Woven.fill w).pair (.fill v)))
    cases e <;> exact hboth

/-! ### Statement lists and loops -/

omit H in
theorem sequence_weaves (mode : Mode) (isEmpty : Bool) {m₀ : Bool → EmitM (String × Bool)}
    {m : (String → String) → Bool → EmitM (String × Bool)}
    (h : ∀ r, Weaves fillFirst (m₀ r) fun form => m form r) :
    Weaves Weave.fill (sequence mode isEmpty m₀) fun form => sequence mode isEmpty (m form) := by
  unfold sequence
  cases isEmpty with
  | true => exact .woven (.text "")
  | false =>
    refine .look (fun _ _ => rfl) (fun _ _ _ => rfl) fun s => ((h _).inList _).bind fun p => ?_
    refine .look (fun _ _ => rfl) (fun _ _ _ => rfl) fun t => ?_
    dsimp only [fillFirst]
    cases p.2 && t.blockLevel == 0 with
    | true => exact (segment_weaves p.1).bind fun _ => .woven (.fill p.1)
    | false => exact .woven (.fill p.1)

omit H in
theorem place_weaves (registering : Bool) (code : Weave) (x : Stmt) {m₀ : EmitM String}
    {m : (String → String) → EmitM String} (h : Weaves Weave.fill m₀ m) :
    Weaves fillFirst (place registering (code.fill Text.quote) x m₀)
      fun form => place registering (code.fill form) x (m form) := by
  have hplaced : ∀ r : Bool, Weaves fillFirst (do return (code.fill Text.quote ++ (← m₀), r))
      fun form => do return (code.fill form ++ (← m form), r) := by
    intro r
    refine h.bind fun more => .pure (g := fun form => (code.fill form ++ more.fill form, r))
      ⟨(code ++ more, r), ?_⟩
    exact fun form _ => congrArg (·, r) (Weave.fill_append form code more)
  cases x with
  | block name body =>
    cases registering with
    | false => exact hplaced _
    | true =>
      -- the code so far goes into the blocks, which are not compared, and nothing of it is left
      refine (segment_weaves code).bind fun _ =>
        (Weaves.same (register_blind name body)).bind fun _ => ?_
      exact .pure (g := fun _ => ("", true)) ⟨([], true), fun _ _ => rfl⟩
  | _ => exact hplaced _

theorem step_weaves (n : Node) (registering : Bool) (code : Weave) {m₀ : EmitM String}
    {m : (String → String) → EmitM String} (h : Weaves Weave.fill m₀ m) :
    Weaves fillFirst (step env n registering (code.fill Text.quote) m₀)
      fun form => step (env.writing form) n registering (code.fill form) (m form) := by
  have hwriter : ∀ form, (env.writing form).compiler.handled (·.statement n) = none := fun _ => rfl
  simp only [step, Compiler.handled_eq_none H.extensions, hwriter]
  exact (place_weaves registering code n.stmt h).inStmt n.pos

theorem loop_weaves (target : String) (key : Option String) (iterable : Expr) (guard : Option Expr)
    (branched : Bool)
    {m₀ : EmitM String} {m : (String → String) → EmitM String} (h : Weaves Weave.fill m₀ m) :
    Weaves Weave.fill (loop env target key iterable guard branched m₀)
      fun form => loop (env.writing form) target key iterable guard branched (m form) := by
  simp only [loop, turn]
  refine Weaves.inLoop (.look (fun _ _ => rfl) (fun _ _ _ => rfl) fun s => ?_)
  refine (Weaves.same loopStem_blind).bind fun stem =>
    (expr_weaves H iterable).bind fun source => ?_
  refine (Weaves.same (clearLoop_blind _)).bind fun _ =>
    (Weaves.same (noteBranch_blind _ _ _)).bind fun _ => ?_
  refine (expr?_weaves H guard).bind fun g => h.bind fun body => ?_
  exact (Weaves.same (takeRecorded_blind _)).bind fun recorded =>
    .woven (Woven.loop (stem ++ toString s.loopLevel) target key recorded branched source body g)

end

/-! ### Statements -/

mutual

/-- The code of a statement has a place for each literal of its expressions. -/
theorem stmt_weaves {env : Env} (H : env.Weaving) (mode : Mode) (x : Stmt) :
    Weaves Weave.fill (stmt env mode x) fun form => stmt (env.writing form) mode x := by
  cases x with
  | text _ | caseDefault | continueLoop | breakLoop =>
    simp only [stmt]
    exact .woven (.text _)
  | echo e =>
    simp only [stmt]
    exact echo_weaves H e
  | ifThen condition body elseBody =>
    simp only [stmt]
    refine operand_weaves H _ _ fun c => (body_weaves H mode body).bind fun b => ?_
    refine (elseCode_weaves H mode elseBody).bind fun o => ?_
    exact .woven ((((Woven.fill c).ifOpen.append (.fill b)).append (.fill o)).append (.text _))
  | elseIf condition =>
    simp only [stmt]
    exact operand_weaves H _ _ fun c => .woven (Code.weaving_sect _ ((Woven.fill c).around _ _))
  | switchOn subject cases =>
    simp only [stmt]
    refine operand_weaves H _ _ fun e => (body_weaves H mode cases).bind fun b => ?_
    exact .woven
      (((Code.weaving_sect _ ((Woven.fill e).around _ _)).append (Woven.fill b).tidy).append
        (.text _))
  | caseOf value =>
    simp only [stmt]
    exact operand_weaves H _ _ fun e => .woven (Code.weaving_sect _ ((Woven.fill e).around _ _))
  | forIn target key iterable guard body =>
    simp only [stmt]
    exact required_weaves _ _ fun e _ =>
      loop_weaves H target key e guard _ (body_weaves H mode body)
  | forElse =>
    simp only [stmt]
    exact .text forElse_blind
  | assign as =>
    simp only [stmt]
    exact assign_weaves H as
  | block name body =>
    simp only [stmt]
    exact body_weaves H mode body
  | extending path =>
    simp only [stmt]
    exact (Weaves.same (extendView_blind env path)).bind fun _ => .woven (.text "")
  | including path params =>
    simp only [stmt]
    exact includeView_weaves H path params
  | macroDef name params body =>
    simp only [stmt]
    refine (Weaves.same (defineMacro_blind env name)).bind fun _ => ?_
    refine (parameters_weaves H name 0 params).bind fun ps =>
      (body_weaves H mode body).bind fun b => ?_
    exact .woven (.macroDef name ps b)
  | evaluate e =>
    simp only [stmt]
    exact operand_weaves H _ _ fun w =>
      .woven (Code.weaving_sect _ ((Woven.fill w).append (.text _)))
  | returning e =>
    simp only [stmt]
    exact operand_weaves H _ _ fun w => .woven (Code.weaving_sect _ ((Woven.fill w).around _ _))
  | autoescape enabled body =>
    simp only [stmt]
    exact required_weaves _ _ fun enabled _ => (body_weaves H mode body).inAutoescape enabled
  | cached key lifetime body =>
    simp only [stmt]
    refine operand_weaves H _ _ fun k => (expr?_weaves H lifetime).bind fun l =>
      (body_weaves H mode body).bind fun b => ?_
    exact .woven (.cached k l b)
  | unknown =>
    simp only [stmt]
    exact .fail env _

theorem elseCode_weaves {env : Env} (H : env.Weaving) (mode : Mode) (body : Option (List Node)) :
    Weaves Weave.fill (elseCode env mode body) fun form =>
      elseCode (env.writing form) mode body := by
  cases body with
  | none =>
    simp only [elseCode]
    exact .woven (.text "")
  | some body =>
    simp only [elseCode]
    exact (body_weaves H mode body).bind fun b => .woven ((Woven.text _).append (.fill b))

/-- The body of a statement. -/
theorem body_weaves {env : Env} (H : env.Weaving) (mode : Mode) (ns : List Node) :
    Weaves Weave.fill (sequence mode ns.isEmpty fun r => nodes env mode ns r "")
      fun form => sequence mode ns.isEmpty fun r => nodes (env.writing form) mode ns r "" :=
  sequence_weaves mode ns.isEmpty fun r => nodes_weaves H mode ns r []

theorem nodes_weaves {env : Env} (H : env.Weaving) (mode : Mode) (ns : List Node)
    (registering : Bool) (code : Weave) :
    Weaves fillFirst (nodes env mode ns registering (code.fill Text.quote))
      fun form => nodes (env.writing form) mode ns registering (code.fill form) := by
  cases ns with
  | nil =>
    simp only [nodes]
    exact .pure (g := fun form => (code.fill form, registering))
      ⟨(code, registering), fun _ _ => rfl⟩
  | cons n rest =>
    obtain ⟨x, pos⟩ := n
    simp only [nodes]
    exact (step_weaves H (.mk x pos) registering code (stmt_weaves H mode x)).bind fun p =>
      nodes_weaves H mode rest p.2 p.1

end

/-- The code of a statement list. -/
theorem list_weaves {env : Env} (H : env.Weaving) (mode : Mode) (ns : List Node) :
    Weaves Weave.fill (list env mode ns) fun form => list (env.writing form) mode ns :=
  body_weaves H mode ns

/-! ### Whole templates -/

theorem Weaves.blind {F α : Type} {fill : (String → String) → F → α} {m₀ : EmitM α}
    {m : (String → String) → EmitM α} (h : Weaves fill m₀ m) : Blind m₀ := by
  intro s
  obtain ⟨r, t, h₀, -⟩ := h s
  exact ⟨_, t, h₀⟩

theorem superCode_blind {inner : Env} (H : inner.Weaving) : Blind (superCode inner) := by
  have hput : ∀ code : String, Blind (do
      if (← get).exprLevel == 1 then return code else return "'" ++ Text.slashed code ++ "'" :
        EmitM String) := by
    intro code
    refine .get_bind (fun _ _ => rfl) fun s => ?_
    split <;> exact .pure _
  unfold superCode
  refine .get_bind (fun _ _ => rfl) fun s => ?_
  dsimp only
  split
  · exact .pure _
  · split
    · exact (Blind.pure _).bind hput
    · have hlist := (list_weaves H .page ‹_›).blind
      exact (hlist.within (fun _ _ => rfl) fun _ _ _ _ => rfl).bind hput

/-- The environment of a template. -/
theorem Env.weaving_outer {c : Compiler} (H : c.Weaving) (source : String)
    (nested : String → Mode → DiskM Output) :
    (Env.outer c source nested).Weaving := ⟨H, superCode_blind ⟨H, .pure "''"⟩⟩

/-! ### Switches -/

theorem exec_switch {env : Env} {mode : Mode} {subject : Option Expr} {cases : List Node}
    {s t : State} {code : String}
    (h : exec (stmt env mode (.switchOn subject cases)) s = (.ok code, t)) :
    ∃ label u inner, exec (required env .expr subject >>= expr env) s = (.ok label, u) ∧
      exec (list env mode cases) u = (.ok inner, t) ∧
      code = Code.sect ("switch (" ++ label ++ "):") ++ Text.tidy inner ++
      Code.sect "endswitch" := by
  rw [stmt] at h
  obtain ⟨e, s', he, h⟩ := exec_bind_eq_ok.1 h
  obtain ⟨label, u, hlabel, h⟩ := exec_bind_eq_ok.1 h
  obtain ⟨inner, t', hinner, h⟩ := exec_bind_eq_ok.1 h
  cases h
  exact ⟨label, u, inner, exec_bind_eq_ok.2 ⟨e, s', he, hlabel⟩, hinner, rfl⟩

theorem Weaves.exec {m₀ : EmitM String} {m : (String → String) → EmitM String}
    (h : Weaves Weave.fill m₀ m) {s t : State} {code : String} (hcode : exec m₀ s = (.ok code, t)) :
    ∃ w : Weave, code = w.fill Text.quote ∧
      ∀ form, SolidForm form → ∃ t', Stencil.exec (m form) s = (.ok (w.fill form), t') := by
  obtain ⟨r, u, h₀, hm⟩ := h s
  -- the blocks that are there are as good as any others
  obtain ⟨blocks, hplain⟩ := h₀ s.blocks
  obtain ⟨hr, -⟩ := Prod.mk.inj (hplain.symm.trans hcode)
  cases r with
  | error e => cases hr
  | ok w =>
    refine ⟨w, (Except.ok.inj hr).symm, fun form hform => ?_⟩
    obtain ⟨blocks', hform⟩ := hm form hform s.blocks
    exact ⟨_, hform⟩

/-- A literal is the same with the blanks of its text reduced exactly if there is nothing to
reduce. -/
theorem quote_neat_iff (value : String) :
    Text.quote (Text.neat value) = Text.quote value ↔ Text.Tight value.toList := by
  rw [← Text.neat_eq_self_iff]
  exact ⟨fun h => Text.quote_injective h, fun h => congrArg Text.quote h⟩

/-- **Literals in the cases of a switch.** The code of the cases is emitted as it is outside of a
switch, and then blanks are reduced in all of it. So wherever a literal stands in that code, the
literal of its text with the blanks reduced stands in its place, between what comes before and
after; it is the same literal exactly if the text has no blank beside a blank or beside the end of a
line. Without extensions, and if callables keep the places of literals, the code is a weave with a
place for each literal, however literals are written, and the reduced code has places for the same
literals in the same order. -/
theorem switch_tidies_literals (c : Compiler) (source : String)
    (nested : String → Mode → DiskM Output) (mode : Mode)
    (subject : Option Expr) (cases : List Node) (s t : State) (code : String)
    (h : exec (stmt (.outer c source nested) mode (.switchOn subject cases)) s = (.ok code, t)) :
    ∃ label u inner,
      exec (required (.outer c source nested) .expr subject >>= expr (.outer c source nested)) s =
      (.ok label, u) ∧
      exec (list (.outer c source nested) mode cases) u = (.ok inner, t) ∧
      code = Code.sect ("switch (" ++ label ++ "):") ++ Text.tidy inner ++ Code.sect "endswitch" ∧
      (∀ before value after, inner = before ++ Text.quote value ++ after →
        Text.tidy inner = String.ofList (Text.Line.start.through before.toList) ++
          Text.quote (Text.neat value) ++
          String.ofList (Text.Line.inner.tidy after.toList)) ∧
      (∀ value, Text.quote (Text.neat value) = Text.quote value ↔ Text.Tight value.toList) ∧
      (c.Weaving → ∃ w : Weave, inner = w.fill Text.quote ∧
        (∀ form, SolidForm form →
          ∃ t', exec (list ((Env.outer c source nested).writing form) mode cases) u =
            (.ok (w.fill form), t')) ∧
        Text.tidy inner = w.tidied.fill Text.quote ∧ w.tidied.literals = w.literals ∧
        ∀ value tidied, .literal value tidied ∈ w.tidied →
          (Piece.literal value tidied).fill Text.quote = Text.quote (Text.neat value)) := by
  obtain ⟨label, u, inner, hlabel, hinner, hcode⟩ := exec_switch h
  refine ⟨label, u, inner, hlabel, hinner, hcode, ?_, quote_neat_iff, fun H => ?_⟩
  · rintro before value after rfl
    rw [Text.tidy_around (Text.quote_solid value), Text.tidy_quote]
  · obtain ⟨w, rfl, hforms⟩ :=
      (list_weaves (Env.weaving_outer H source nested) mode cases).exec hinner
    exact ⟨w, rfl, hforms, Weave.fill_tidied solidForm_quote w, Weave.literals_tidied w,
      fun value tidied hmem => Weave.fill_of_mem_tidied hmem⟩

namespace Menu

/-- A compiler with a function of the user's own. -/
def compiler : Compiler := Compiler.initial.addFunction "shout" (.name "strtoupper")

/-- A template that names no others. -/
def env : Env := .outer compiler "menu" fun _ _ => pure (.code "")

/-- A case with a label of two words, and what it prints. -/
def cases : List Node :=
  [.mk (.caseOf (some (.str "a  b"))) .unknown, .mk (.text "  \n ") .unknown,
    .mk (.echo (some (.call (.var "shout") [⟨.str "c d", none⟩]))) .unknown]

/-- What the cases are outside of a switch. -/
def code : String := "<?php case 'a  b': ?>  \n <?= strtoupper('c d') ?>"

theorem weaving : compiler.Weaving := by
  refine ⟨rfl, fun name f h => ?_, fun name f h => by cases h⟩
  have hlookup : ([("shout", Callable.name "strtoupper")] : List (String × Callable)).lookup name =
      some f := h
  rw [List.lookup_cons] at hlookup
  split at hlookup
  · obtain rfl := Option.some.inj hlookup
    exact Callable.weaving_name _
  · cases hlookup

theorem exec_cases :
    exec (list env .page cases) (.initial false .empty) = (.ok code, .initial false .empty) := by
  rfl

end Menu

/-- A label loses one of its two blanks, and what is printed keeps its only one. -/
theorem switch_tidies_literals_menu :
    (exec (stmt Menu.env .page (.switchOn (some (.var "x")) Menu.cases))
      (.initial false .empty)).1 =
        .ok ("<?php switch ($x): ?>" ++ Text.tidy Menu.code ++ "<?php endswitch ?>") ∧
      Text.tidy Menu.code = "<?php case " ++ Text.quote (Text.neat "a  b") ++
      ": ?>\n<?= strtoupper('c d') ?>" ∧
      Text.quote (Text.neat "a  b") ≠ Text.quote "a  b" ∧
      Text.quote (Text.neat "c d") = Text.quote "c d" ∧
      ∃ w : Weave, Menu.code = w.fill Text.quote ∧ Text.tidy Menu.code = w.tidied.fill Text.quote ∧
        w.tidied.literals = w.literals := by
  have hloose : ¬ Text.Tight "a  b".toList :=
    fun h => absurd (h ' ' ' ' ⟨['a'], ['b'], rfl⟩) (by decide)
  have htight : Text.Tight "c d".toList := by
    have hleft : Text.loose 'c' ' ' = false := by decide
    have hright : Text.loose ' ' 'd' = false := by decide
    simp [Text.tight_cons, Text.tight_nil, hleft, hright]
  obtain ⟨label, u, inner, hlabel, hinner, hcode, hplaces, hsame, hweave⟩ :=
    switch_tidies_literals Menu.compiler "menu" (fun _ _ => pure (.code "")) .page
      (some (.var "x")) Menu.cases
      (.initial false .empty) _ _ rfl
  obtain ⟨hx, rfl⟩ := Prod.mk.inj hlabel
  obtain rfl : label = "$x" := (Except.ok.inj hx).symm
  obtain rfl : inner = Menu.code :=
    (Except.ok.inj (Prod.mk.inj (Menu.exec_cases.symm.trans hinner)).1).symm
  obtain ⟨w, hw, -, htidied, hliterals, -⟩ := hweave Menu.weaving
  refine ⟨?_, ?_, fun h => hloose ((hsame _).1 h), (hsame _).2 htight, w, hw, htidied, hliterals⟩
  · exact congrArg Except.ok hcode
  · rw [hplaces "<?php case " "a  b" ": ?>  \n <?= strtoupper('c d') ?>" (by decide)]
    decide +kernel

/-- The label of a case is another text than it is outside of a switch. -/
theorem switch_label_changed :
    (exec (page Menu.env
        [.mk (.switchOn (some (.var "x")) [.mk (.caseOf (some (.str "a  b"))) .unknown]) .unknown])
        (.initial false .empty)).1.toOption =
        some "<?php switch ($x): ?><?php case 'a b': ?><?php endswitch ?>" ∧
      (exec (page Menu.env [.mk (.caseOf (some (.str "a  b"))) .unknown])
        (.initial false .empty)).1.toOption =
        some "<?php case 'a  b': ?>" := ⟨by decide +kernel, by decide +kernel⟩

end Emit
end Stencil
