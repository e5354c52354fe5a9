/-
# Runs for all texts

A text is part of a template, and what is emitted for the template is a function of the
text. The runs for all texts go through the same states, but for the blocks registered so
far. A carrier says how the code emitted since the last block and the blocks may depend on
the text; what one statement carries, the statements around it and the lists that it is in
carry too.

Key definitions: `Emit.Hole`, `Emit.Wrap`, `Emit.Carrier`, `Emit.Writes`, `Emit.Carries`.
Key theorems: `Emit.nodes_writes`, `Emit.shell_carries`, `Emit.hole_carries`.
-/
import Stencil.Proofs.Pinned

namespace Stencil

theorem Node.statements_append (as bs : List Node) :
    Node.statements (as ++ bs) = Node.statements as ++ Node.statements bs := by
  induction as with
  | nil => rfl
  | cons n as ih =>
    obtain ⟨s, pos⟩ := n
    rw [List.cons_append, Node.statements, Node.statements, ih, List.append_assoc]

namespace Emit

/-! ### Places in a tree -/

/-- A statement without one of its bodies. -/
inductive Shell where
  | ifBody (condition : Option Expr) (elseBody : Option (List Node))
  | ifElse (condition : Option Expr) (body : List Node)
  | switchOn (subject : Option Expr)
  | forIn (target : String) (key : Option String) (iterable guard : Option Expr)
  | macroDef (name : String) (params : List Parameter)
  | autoescape (enabled : Option Bool)
  | cached (key lifetime : Option Expr)

/-- The statement with this body. -/
def Shell.fill (ns : List Node) : Shell → Stmt
  | .ifBody condition elseBody => .ifThen condition ns elseBody
  | .ifElse condition body => .ifThen condition body (some ns)
  | .switchOn subject => .switchOn subject ns
  | .forIn target key iterable guard => .forIn target key iterable guard ns
  | .macroDef name params => .macroDef name params ns
  | .autoescape enabled => .autoescape enabled ns
  | .cached key lifetime => .cached key lifetime ns

/-- A place in a list of nodes or in the body of one of them, outside of blocks. -/
inductive Hole where
  | here (before after : List Node) (pos : Position)
  | inside (before after : List Node) (pos : Position) (shell : Shell) (hole : Hole)

/-- The nodes with this statement in the place. -/
def Hole.fill (x : Stmt) : Hole → List Node
  | .here before after pos => before ++ .mk x pos :: after
  | .inside before after pos shell hole => before ++ .mk (shell.fill (hole.fill x)) pos :: after

/-- The node in the place, and the nodes that it is in. -/
def Hole.path (x : Stmt) : Hole → List Node
  | .here _ _ pos => [.mk x pos]
  | .inside _ _ pos shell hole => .mk (shell.fill (hole.fill x)) pos :: hole.path x

/-- No block follows in the lists that the place is in. -/
def Hole.isLast : Hole → Bool
  | .here _ after _ => after.all fun n => !n.stmt.isBlock
  | .inside _ after _ _ hole => (after.all fun n => !n.stmt.isBlock) && hole.isLast

/-! ### Code around a text -/

/-- What becomes of a text: code is put before and after it, and it may be tidied. -/
inductive Wrap : (String → String) → Prop
  | refl : Wrap fun v => v
  | before {w : String → String} (code : String) (h : Wrap w) : Wrap fun v => code ++ w v
  | after {w : String → String} (code : String) (h : Wrap w) : Wrap fun v => w v ++ code
  | tidy {w : String → String} (h : Wrap w) : Wrap fun v => Text.tidy (w v)

theorem Wrap.comp {w w' : String → String} (h : Wrap w) (h' : Wrap w') :
    Wrap fun v => w (w' v) := by
  induction h with
  | refl => exact h'
  | before code _ ih => exact .before code ih
  | after code _ ih => exact .after code ih
  | tidy _ ih => exact .tidy ih

theorem Wrap.between (pre post : String) : Wrap fun v => pre ++ v ++ post :=
  .after post (.before pre .refl)

/-! ### Carriers -/

theorem numbered_write {m : BlockMap} (h : m.Numbered) (w : Write) : (w.to m).Numbered := by
  cases w with
  | segment code =>
    show (m.segment code).Numbered
    unfold BlockMap.segment
    split
    · exact h
    · exact h.append code
  | define name body => exact h.define name _

theorem numbered_foldl {m : BlockMap} (h : m.Numbered) (ws : List Write) :
    (ws.foldl Write.to m).Numbered := by
  induction ws generalizing m with
  | nil => exact h
  | cons w ws ih => exact ih (numbered_write h w)

/-- How the code emitted since the last block, and the blocks, may depend on the text:
a relation that is kept if code is put around the text or blocks are added. -/
structure Carrier (C : (String → String) → (String → BlockMap) → Prop) : Prop where
  wrap : ∀ {F w : String → String} {M : String → BlockMap}, C F M → Wrap w → C (fun v => w (F v)) M
  write : ∀ {F : String → String} {M : String → BlockMap}, C F M →
    ∀ w : Write, C F fun v => w.to (M v)

theorem Carrier.foldl {C : (String → String) → (String → BlockMap) → Prop} (hC : Carrier C)
    {F : String → String} (ws : List Write) : ∀ {M : String → BlockMap}, C F M →
    C F fun v => ws.foldl Write.to (M v) := by
  induction ws with
  | nil => exact fun h => h
  | cons w ws ih => exact fun h => ih (hC.write h w)

/-! ### Runs for all texts -/

/-- The emission adds to the blocks, whatever they are. -/
def Writes {α : Type} (m : EmitM α) : Prop := ∀ a, ∃ m', Mirrors false .layout a m m'

theorem Writes.exec {α : Type} {m : EmitM α} (h : Writes m) {s : State} (hs : Calm s) :
    ∃ ws r t, Kept s t ∧ ∀ b : Backdrop, 0 < b.blockLevel →
      Stencil.exec m (s.over b) = (r, t.over (b.write ws)) := by
  obtain ⟨m', hm⟩ := h s.autoescape
  obtain ⟨ws, r, t, hkept, -, hm⟩ := hm s hs rfl
  exact ⟨ws, r, t, hkept, fun b hb => (hm b fun _ => hb).1⟩

theorem Silent.writes {α : Type} {m : EmitM α} (h : Silent m) : Writes m := fun _ => ⟨m, h.mirrors⟩

theorem Writes.bind_of {α β : Type} {m : EmitM α} {f : α → EmitM β} (h : Writes m)
    (hf : ∀ x, (∃ s t, Stencil.exec m s = (.ok x, t)) → Writes (f x)) : Writes (m >>= f) := by
  intro a
  obtain ⟨m', hm⟩ := h a
  have hrest : ∀ x, ∃ g : EmitM β, (∃ s t, Stencil.exec m s = (.ok x, t)) →
      Mirrors false .layout a (f x) g := by
    intro x
    by_cases hx : ∃ s t, Stencil.exec m s = (.ok x, t)
    · obtain ⟨g, hg⟩ := hf x hx a
      exact ⟨g, fun _ => hg⟩
    · exact ⟨f x, fun h => absurd h hx⟩
  obtain ⟨g, hg⟩ := Classical.axiomOfChoice hrest
  exact ⟨m' >>= g, hm.bind_of hg⟩

theorem Writes.bind {α β : Type} {m : EmitM α} {f : α → EmitM β} (h : Writes m)
    (hf : ∀ x, Writes (f x)) :
    Writes (m >>= f) :=
  h.bind_of fun x _ => hf x

theorem Writes.bind_pure {α β : Type} {m : EmitM α} (h : Writes m) (f : α → β) :
    Writes (m >>= fun x => pure (f x)) :=
  h.bind fun x => (Silent.pure (f x)).writes

theorem Writes.inStmt {α : Type} {m : EmitM α} (h : Writes m) (pos : Position) :
    Writes (Emit.inStmt pos m) := by
  intro a
  obtain ⟨m', hm⟩ := h a
  exact ⟨_, hm.inStmt pos⟩

/-- The results for all texts: all are one failure, or all are code that depends on the text
as `C` says. -/
def Uniform (C : (String → String) → (String → BlockMap) → Prop)
    (r : String → Except CompileError String) (M : String → BlockMap) : Prop :=
  (∃ e, ∀ v, r v = .error e) ∨ ∃ F, (∀ v, r v = .ok (F v)) ∧ C F M

/-- The emissions for all texts, run in one state, end alike. They leave one state, but for
the blocks. -/
def Carries {α : Type} (C : (String → String) → (String → BlockMap) → Prop) (emb : String → α)
    (m : String → EmitM α) : Prop :=
  ∀ (s : State) (b : Backdrop), Calm s → 0 < b.blockLevel → b.blocks.Numbered →
    ∃ (r : String → Except CompileError String) (M : String → BlockMap) (t : State), Kept s t ∧
      (∀ v, exec (m v) (s.over b) = ((r v).map emb, t.over (b.hold (M v)))) ∧ Uniform C r M

section
variable {C D : (String → String) → (String → BlockMap) → Prop} {α β γ : Type} {emb : String → α}

/-- Something before that does not depend on the text. -/
theorem Carries.before {pre : EmitM β} (hpre : Writes pre) {m : β → String → EmitM α}
    (h : ∀ x, (∃ s t, exec pre s = (.ok x, t)) → Carries C emb (m x)) :
    Carries C emb fun v => pre >>= fun x => m x v := by
  intro s b hs hb hm
  obtain ⟨ws, r, t, hkept, hrun⟩ := hpre.exec hs
  cases r with
  | error e =>
    refine ⟨fun _ => .error e, fun _ => (b.write ws).blocks, t, hkept, fun v => ?_,
      .inl ⟨e, fun _ => rfl⟩⟩
    dsimp only
    rw [exec_bind, hrun b hb]
    rfl
  | ok x =>
    obtain ⟨r, M, u, hkept', hends, hC⟩ :=
      h x ⟨_, _, hrun b hb⟩ t (b.write ws) (hs.kept hkept) hb (numbered_foldl hm ws)
    refine ⟨r, M, u, hkept.trans hkept', fun v => ?_, hC⟩
    dsimp only
    rw [exec_bind, hrun b hb]
    exact hends v

/-- Something after that does not depend on the text, and code made of both. -/
theorem Carries.after (emb : String → α) {m : String → EmitM String} (hm : Carries C id m)
    {post : EmitM β} (hpost : Writes post)
    {w : β → String → String} (hw : ∀ x {F M}, C F M → D (fun v => w x (F v)) M)
    (hD : Carrier D) : Carries D emb fun v => m v >>= fun code => post >>= fun x =>
      pure (emb (w x code)) := by
  intro s b hs hb hnum
  obtain ⟨r, M, t, hkept, hends, hC⟩ := hm s b hs hb hnum
  rcases hC with ⟨e, he⟩ | ⟨F, hF, hC⟩
  · refine ⟨fun _ => .error e, M, t, hkept, fun v => ?_, .inl ⟨e, fun _ => rfl⟩⟩
    dsimp only
    rw [exec_bind, hends, he]
    rfl
  · obtain ⟨ws, r', u, hkept', hrun⟩ := hpost.exec (hs.kept hkept)
    have hbind : ∀ v, exec (m v >>= fun code => post >>= fun x => pure (emb (w x code)))
        (s.over b) =
        (r'.map fun x => emb (w x (F v)), u.over (b.hold (ws.foldl Write.to (M v)))) := by
      intro v
      have hrun' : exec post (t.over (b.hold (M v))) =
          (r', u.over (b.hold (ws.foldl Write.to (M v)))) :=
        hrun (b.hold (M v)) hb
      rw [exec_bind, hends, hF]
      show exec (post >>= fun x => pure (emb (w x (F v)))) (t.over (b.hold (M v))) = _
      rw [exec_bind, hrun']
      cases r' <;> rfl
    refine ⟨fun v => r'.map fun x => w x (F v), fun v => ws.foldl Write.to (M v), u,
      hkept.trans hkept',
      fun v => (hbind v).trans ?_, ?_⟩
    · cases r' <;> rfl
    · cases r' with
      | error e => exact .inl ⟨e, fun _ => rfl⟩
      | ok x => exact .inr ⟨_, fun _ => rfl, hD.foldl ws (hw x hC)⟩

/-- Code put around what is emitted. -/
theorem Carries.wrap (emb : String → α) (hC : Carrier C) {m : String → EmitM String}
    (hm : Carries C id m)
    {w : String → String} (hw : Wrap w) :
    Carries C emb fun v => m v >>= fun code => pure (emb (w code)) := by
  have h := Carries.after emb hm (Silent.pure PUnit.unit).writes (w := fun _ code => w code)
    (fun _ _ _ h => hC.wrap h hw) hC
  simpa only [pure_bind] using h

/-- The state may be read, but for the backdrop. -/
theorem Carries.get_bind {f : State → String → EmitM α} (hf : ∀ s b v, f (s.over b) v = f s v)
    (h : ∀ s, Carries C emb (f s)) : Carries C emb fun v => get >>= fun s => f s v := by
  intro s b hs hb hnum
  obtain ⟨r, M, t, hkept, hends, hC⟩ := h s s b hs hb hnum
  refine ⟨r, M, t, hkept, fun v => ?_, hC⟩
  dsimp only
  rw [← hends v, exec_bind, exec_get]
  dsimp only
  rw [hf]

/-- Emissions run in a changed state, where the change is undone. -/
theorem Carries.within {m : String → EmitM α} {enter : State → State}
    {leave : State → State → State}
    (h : Carries C emb m) (B : Bracket enter leave) :
    Carries C emb fun v => Emit.within enter leave (m v) := by
  intro s b hs hb hnum
  obtain ⟨r, M, t, hkept, hends, hC⟩ := h (enter s) b (hs.enter B) hb hnum
  refine ⟨r, M, leave s t, B.kept hkept, fun v => ?_, hC⟩
  dsimp only
  rw [exec_within, B.enter_over, hends]
  exact congrArg _ (B.leave_over s t _ _)

theorem Carries.inLoop {m : String → EmitM α} (h : Carries C emb m) :
    Carries C emb fun v => Emit.inLoop (m v) :=
  h.within bracket_loop

end

/-! ### Statements without the text -/

section
variable {env : Env}

theorem list_writes {ns : List Node} (hext : ∀ y ∈ Node.statements ns, y.isExtending = false)
    (h : Writes (nodes env .layout ns true "")) : Writes (list env .layout ns) := by
  intro a
  obtain ⟨m', hm⟩ := h a
  have hlist : Mirrors false .layout a (list env .layout ns)
      (sequence .layout ns.isEmpty fun _ => m') :=
    sequence_mirrors hm fun _ _ _ hp =>
      nodes_registering (fun _ hn => hext _ (Node.stmt_mem_statements hn)) hp
  exact ⟨_, hlist⟩

/-- A node that an extension takes over adds its code, a block is registered, and others are
emitted. -/
theorem step_writes {x : Stmt} (hext : ∀ y ∈ x.statements, y.isExtending = false)
    (h : Writes (stmt env .layout x)) (pos : Position) (code : String) :
    Writes (step env (.mk x pos) true code (stmt env .layout x)) := by
  cases hhook : env.compiler.handled (·.statement (.mk x pos)) with
  | some handled =>
    rw [step_handled hhook]
    exact (Silent.pure _).writes.inStmt pos
  | none =>
    rw [step_unhandled hhook]
    refine Writes.inStmt ?_ pos
    cases hx : x.isBlock with
    | true =>
      obtain ⟨name, body, rfl⟩ := Stmt.eq_block hx
      have hbody : ∀ y ∈ Node.statements body, y.isExtending = false := fun y hy =>
        hext y (List.mem_cons_of_mem _ hy)
      exact fun a => ⟨_, block_mirrors name hbody code _ (pure "")⟩
    | false =>
      show Writes (place true code x (stmt env .layout x))
      rw [place_inline (.inl hx)]
      exact h.bind_pure _

theorem operand_writes (hquiet : env.Quiet) {β : Type} (part : Stmt.Part) (e : Option Expr)
    {f : String → EmitM β}
    (hf : ∀ code, Writes (f code)) : Writes (required env part e >>= fun e => expr env e >>= f) :=
  Writes.bind (Silent.writes (required_related (silent_congruence hquiet) part e)) fun e =>
    (expr_silent hquiet e).writes.bind hf

mutual

/-- A statement that extends nothing only adds to the blocks. -/
theorem stmt_writes (hquiet : env.Quiet) : ∀ x : Stmt, (∀ y ∈ x.statements, y.isExtending = false) →
    Writes (stmt env .layout x)
  | .text _, _ | .caseDefault, _ | .continueLoop, _ | .breakLoop, _ => by
    rw [stmt]
    exact (Silent.pure _).writes
  | .echo e, _ => by
    rw [stmt]
    exact (echo_silent hquiet e).writes
  | .ifThen condition body elseBody, hext => by
    simp only [Stmt.statements, List.forall_mem_cons, List.forall_mem_append] at hext
    rw [stmt]
    refine operand_writes hquiet _ _ fun _ => ?_
    refine (list_writes hext.2.1 (nodes_writes hquiet body hext.2.1 "")).bind fun body => ?_
    exact (elseCode_writes hquiet elseBody hext.2.2).bind_pure _
  | .elseIf _, _ | .caseOf _, _ | .evaluate _, _ | .returning _, _ => by
    rw [stmt]
    exact operand_writes hquiet _ _ fun _ => (Silent.pure _).writes
  | .switchOn subject cases, hext => by
    simp only [Stmt.statements, List.forall_mem_cons] at hext
    rw [stmt]
    refine operand_writes hquiet _ _ fun _ => ?_
    exact (list_writes hext.2 (nodes_writes hquiet cases hext.2 "")).bind_pure _
  | .forIn target key iterable guard body, hext => by
    simp only [Stmt.statements, List.forall_mem_cons] at hext
    rw [stmt]
    refine Writes.bind (Silent.writes (required_related (silent_congruence hquiet) _ _))
      fun e a => ?_
    obtain ⟨m', hm⟩ := list_writes hext.2 (nodes_writes hquiet body hext.2 "") a
    exact ⟨_, loop_mirrors hquiet target key e guard _ hm⟩
  | .forElse, _ => by
    rw [stmt]
    exact forElse_silent.writes
  | .assign as, _ => by
    rw [stmt]
    exact Silent.writes (assign_related (silent_congruence hquiet) as)
  | .block _ body, hext => by
    simp only [Stmt.statements, List.forall_mem_cons] at hext
    rw [stmt]
    exact list_writes hext.2 (nodes_writes hquiet body hext.2 "")
  | .extending _, hext => by
    have := hext _ (Stmt.mem_statements _)
    cases this
  | .including path params, _ => by
    rw [stmt]
    exact (includeView_silent hquiet path params).writes
  | .macroDef name params body, hext => by
    simp only [Stmt.statements, List.forall_mem_cons] at hext
    rw [stmt]
    refine (defineMacro_silent name).writes.bind fun _ => ?_
    refine Writes.bind (Silent.writes (parameters_related (silent_congruence hquiet) name 0 params))
      fun given => ?_
    exact (list_writes hext.2 (nodes_writes hquiet body hext.2 "")).bind_pure _
  | .autoescape enabled body, hext => by
    simp only [Stmt.statements, List.forall_mem_cons] at hext
    rw [stmt]
    refine Writes.bind (Silent.writes (required_related (silent_congruence hquiet) _ _))
      fun f a => ?_
    obtain ⟨m', hm⟩ := list_writes hext.2 (nodes_writes hquiet body hext.2 "") f
    exact ⟨_, hm.inAutoescape⟩
  | .cached key lifetime body, hext => by
    simp only [Stmt.statements, List.forall_mem_cons] at hext
    rw [stmt]
    refine operand_writes hquiet _ _ fun _ =>
      (expr?_silent hquiet lifetime).writes.bind fun life => ?_
    exact (list_writes hext.2 (nodes_writes hquiet body hext.2 "")).bind_pure _
  | .unknown, _ => by
    rw [stmt]
    exact (fail_silent _).writes

theorem elseCode_writes (hquiet : env.Quiet) : ∀ ns : Option (List Node),
    (∀ y ∈ Node.statementsOption ns, y.isExtending = false) →
    Writes (elseCode env .layout ns)
  | none, _ => by
    rw [elseCode]
    exact (Silent.pure _).writes
  | some ns, hext => by
    rw [elseCode]
    exact (list_writes hext (nodes_writes hquiet ns hext "")).bind_pure _

theorem nodes_writes (hquiet : env.Quiet) :
    ∀ ns : List Node, (∀ y ∈ Node.statements ns, y.isExtending = false) → ∀ code,
    Writes (nodes env .layout ns true code)
  | [], _, code => by
    rw [nodes]
    exact (Silent.pure _).writes
  | .mk x pos :: rest, hext, code => by
    rw [Node.statements, List.forall_mem_append] at hext
    rw [nodes]
    refine (step_writes hext.1 (stmt_writes hquiet x hext.1) pos code).bind_of fun p hp => ?_
    obtain ⟨code, registering⟩ := p
    obtain ⟨s, t, hp⟩ := hp
    have hreg : registering = true :=
      step_registering (n := .mk x pos) (hext.1 x x.mem_statements) hp
    rw [hreg]
    exact nodes_writes hquiet rest hext.2 code

end

end

/-! ### Statements around a text -/

section
variable {C : (String → String) → (String → BlockMap) → Prop} {env : Env} (hquiet : env.Quiet)

/-- A loop puts its code around its body. -/
theorem wrap_loop (l : Code.Loop) : Wrap fun body => Code.Loop.code { l with body := body } := by
  have hcode : (fun body => Code.Loop.code { l with body := body }) = fun body =>
      ((if l.branched then Code.sect (Code.Loop.var l.stem "iterated = false;") else "") ++
        (if l.recorded then l.prologue else "") ++ l.opening ++
          (if l.recorded then l.refresh else "") ++
        l.guard.elim "" Code.ifOpen ++
        (if l.branched then Code.sect (Code.Loop.var l.stem "iterated = true;") else "")) ++
        body ++ l.closing := by
    obtain ⟨_, _, _, _, guard, _, _, _⟩ := l
    cases guard <;> rfl
  rw [hcode]
  exact .between _ _

include hquiet in
theorem loop_carries (hC : Carrier C) (target : String) (key : Option String) (iterable : Expr)
    (guard : Option Expr) (branched : Bool) {body : String → EmitM String} (h : Carries C id body) :
    Carries C id fun v => loop env target key iterable guard branched (body v) := by
  simp only [loop, turn]
  refine Carries.inLoop (.get_bind (fun _ _ _ => rfl) fun s => ?_)
  refine .before loopStem_silent.writes fun stem _ =>
    .before (expr_silent hquiet iterable).writes fun source _ => ?_
  refine .before (clearLoop_silent _).writes fun _ _ =>
    .before (noteBranch_silent _ _ _).writes fun _ _ => ?_
  refine .before (expr?_silent hquiet guard).writes fun guard _ => ?_
  exact Carries.after id h (takeRecorded_silent _).writes (w := fun recorded body => Code.Loop.code
    ⟨stem ++ toString s.loopLevel, source, target, key, guard, body, recorded, branched⟩)
    (fun recorded _ _ hF => hC.wrap hF
      (wrap_loop ⟨stem ++ toString s.loopLevel, source, target, key, guard, "", recorded,
        branched⟩)) hC

include hquiet in
/-- A statement puts code around what its body carries. -/
theorem shell_carries (hC : Carrier C) (shell : Shell) {ns : String → List Node}
    (hforElse : ∀ v, (ns v).any Node.isForElse = (ns "").any Node.isForElse)
    (hext : ∀ y ∈ (shell.fill (ns "")).statements, y.isExtending = false)
    (h : Carries C id fun v => list env .layout (ns v)) :
    Carries C id fun v => stmt env .layout (shell.fill (ns v)) := by
  have hrequired : ∀ {α : Type} (part : Stmt.Part) (a : Option α), Writes (required env part a) :=
    fun part a => Silent.writes (required_related (silent_congruence hquiet) part a)
  have hexpr : ∀ e, Writes (expr env e) := fun e => (expr_silent hquiet e).writes
  cases shell with
  | ifBody condition elseBody =>
    simp only [Shell.fill, Stmt.statements, List.forall_mem_cons, List.forall_mem_append] at hext
    simp only [Shell.fill, stmt]
    refine .before (hrequired _ _) fun e _ => .before (hexpr e) fun cond _ => ?_
    exact Carries.after id h (elseCode_writes hquiet _ hext.2.2)
      (w := fun other body => Code.ifOpen cond ++ body ++ other ++ Code.close)
      (fun other _ _ hF => hC.wrap hF (.after _ (.between _ _))) hC
  | ifElse condition body =>
    simp only [Shell.fill, Stmt.statements, List.forall_mem_cons, List.forall_mem_append] at hext
    simp only [Shell.fill, stmt, elseCode]
    refine .before (hrequired _ _) fun e _ => .before (hexpr e) fun cond _ => ?_
    refine .before (list_writes hext.2.1 (nodes_writes hquiet _ hext.2.1 "")) fun body _ => ?_
    simp only [bind_assoc, pure_bind]
    exact Carries.wrap id hC h (.after _ (.before _ (.before _ .refl)))
  | switchOn subject =>
    simp only [Shell.fill, stmt]
    refine .before (hrequired _ _) fun e _ => .before (hexpr e) fun code _ => ?_
    exact Carries.wrap id hC h (.after _ (.before _ (.tidy .refl)))
  | forIn target key iterable guard =>
    simp only [Shell.fill, stmt, hforElse]
    exact .before (hrequired _ _) fun e _ => loop_carries hquiet hC target key e guard _ h
  | macroDef name params =>
    simp only [Shell.fill, stmt]
    refine .before (defineMacro_silent name).writes fun _ _ => ?_
    refine .before (Silent.writes (parameters_related (silent_congruence hquiet) name 0 params))
      fun given _ => ?_
    exact Carries.wrap id hC h (.between _ _)
  | autoescape enabled =>
    simp only [Shell.fill, stmt]
    exact .before (hrequired _ _) fun f _ => h.within (bracket_autoescape f)
  | cached key lifetime =>
    simp only [Shell.fill, stmt]
    refine .before (hrequired _ _) fun e _ => .before (hexpr e) fun code _ => ?_
    refine .before (expr?_silent hquiet lifetime).writes fun life _ => ?_
    exact Carries.wrap id hC h (.between _ _)

/-! ### Lists around a text -/

theorem nodes_append (mode : Mode) : ∀ (as bs : List Node) (registering : Bool) (code : String),
    nodes env mode (as ++ bs) registering code =
      nodes env mode as registering code >>= fun p => nodes env mode bs p.2 p.1
  | [], bs, registering, code => by rw [nodes, pure_bind]; rfl
  | .mk x pos :: as, bs, registering, code => by
    rw [List.cons_append, nodes, nodes, bind_assoc]
    congr 1
    funext p
    exact nodes_append mode as bs p.2 p.1

theorem step_carries (hC : Carrier C) {y : String → Stmt} {pos : Position}
    (hblock : ∀ v, (y v).isBlock = false)
    (hhook : ∀ v, env.compiler.handled (·.statement (.mk (y v) pos)) = none) (code : String)
    (h : Carries C id fun v => stmt env .layout (y v)) :
    Carries C (·, true) fun v => step env (.mk (y v) pos) true code (stmt env .layout (y v)) := by
  have hstep : (fun v => step env (.mk (y v) pos) true code (stmt env .layout (y v))) = fun v =>
      inStmt pos (stmt env .layout (y v) >>= fun more => pure (code ++ more, true)) := by
    funext v
    rw [step_unhandled (hhook v)]
    exact congrArg (inStmt pos) (place_inline (.inl (hblock v)) code _)
  rw [hstep]
  exact (Carries.wrap (·, true) hC h (.before code .refl)).within (bracket_stmt pos)

/-- Where a block ends a segment, code that depends on the text may be in it. -/
def Flushes (C : (String → String) → (String → BlockMap) → Prop) : Prop :=
  ∀ {F M}, C F M → C (fun _ => "") fun v => (M v).segment (F v)

include hquiet in
/-- A statement after the one that the text is in. -/
theorem step_after (hC : Carrier C) {x : Stmt} (hflush : x.isBlock = false ∨ Flushes C)
    (hext : ∀ y ∈ x.statements, y.isExtending = false) (pos : Position) {F : String → String}
    {M : String → BlockMap} {s : State} {b : Backdrop} (hF : C F M) (hs : Calm s)
    (hb : 0 < b.blockLevel) :
    ∃ (r : String → Except CompileError String) (M' : String → BlockMap) (t : State), Kept s t ∧
      (∀ v, exec (step env (.mk x pos) true (F v) (stmt env .layout x)) (s.over (b.hold (M v))) =
        ((r v).map (·, true), t.over (b.hold (M' v)))) ∧ Uniform C r M' := by
  cases hhook : env.compiler.handled (·.statement (.mk x pos)) with
  | some handled =>
    refine ⟨fun v => .ok (F v ++ handled), M, s, .refl s, fun v => ?_,
      .inr ⟨_, fun _ => rfl, hC.wrap hF (.after handled .refl)⟩⟩
    rw [step_handled hhook]
    rfl
  | none =>
    cases hx : x.isBlock with
    | true =>
      obtain ⟨name, body, rfl⟩ := Stmt.eq_block hx
      have hends : Flushes C := hflush.resolve_left fun h => by cases h
      refine ⟨fun _ => .ok "", fun v => ((M v).segment (F v)).define name (.nodes body), s, .refl s,
        fun v => ?_,
        .inr ⟨_, fun _ => rfl, hC.write (hends hF) (.define name body)⟩⟩
      rw [step_unhandled hhook]
      show exec (inStmt pos (place true (F v) (.block name body) _)) _ = _
      unfold inStmt
      rw [exec_within, exec_place_block]
      rfl
    | false =>
      obtain ⟨ws, r, t, hkept, hrun⟩ :=
        (stmt_writes hquiet x hext).exec (hs.enter (bracket_stmt pos))
      refine ⟨fun v => r.map fun more => F v ++ more, fun v => ws.foldl Write.to (M v),
        { t with pos := s.pos },
        (bracket_stmt pos).kept hkept, fun v => ?_, ?_⟩
      · refine (exec_step_inline hhook (.inl hx) (hext x x.mem_statements) (F v)
          (s.over (b.hold (M v)))
          (hrun (b.hold (M v)) hb)).trans ?_
        cases r <;> rfl
      · cases r with
        | error e => exact .inl ⟨e, fun _ => rfl⟩
        | ok more => exact .inr ⟨_, fun _ => rfl, hC.foldl ws (hC.wrap hF (.after more .refl))⟩

include hquiet in
/-- Statements after the one that the text is in. -/
theorem nodes_after (hC : Carrier C) : ∀ {post : List Node},
    (∀ n ∈ post, n.stmt.isBlock = false) ∨ Flushes C →
    (∀ y ∈ Node.statements post, y.isExtending = false) →
    ∀ {F : String → String} {M : String → BlockMap} {s : State} {b : Backdrop}, C F M → Calm s →
    0 < b.blockLevel → ∃ (r : String → Except CompileError String) (M' : String → BlockMap)
      (t : State),
      Kept s t ∧ (∀ v, exec (nodes env .layout post true (F v)) (s.over (b.hold (M v))) =
        ((r v).map (·, true), t.over (b.hold (M' v)))) ∧ Uniform C r M'
  | [], _, _, F, M, s, b, hF, _, _ => by
    refine ⟨fun v => .ok (F v), M, s, .refl s, fun v => ?_, .inr ⟨F, fun _ => rfl, hF⟩⟩
    rw [nodes]
    rfl
  | .mk x pos :: post, hflush, hext, F, M, s, b, hF, hs, hb => by
    rw [Node.statements, List.forall_mem_append] at hext
    obtain ⟨r, M', t, hkept, hstep, hC'⟩ :=
      step_after hquiet hC (hflush.imp_left fun h => h _ List.mem_cons_self) hext.1 pos hF hs hb
    rcases hC' with ⟨e, he⟩ | ⟨F', hF', hC'⟩
    · refine ⟨fun _ => .error e, M', t, hkept, fun v => ?_, .inl ⟨e, fun _ => rfl⟩⟩
      rw [nodes, exec_bind, hstep v, he v]
      rfl
    · have hflush' : (∀ n ∈ post, n.stmt.isBlock = false) ∨ Flushes C :=
        hflush.imp_left fun h n hn => h n (List.mem_cons_of_mem _ hn)
      obtain ⟨r', M'', u, hkept', hrun, hC''⟩ :=
        nodes_after hC hflush' hext.2 hC' (hs.kept hkept) hb
      refine ⟨r', M'', u, hkept.trans hkept', fun v => ?_, hC''⟩
      rw [nodes, exec_bind, hstep v, hF' v]
      exact hrun v

include hquiet in
/-- A list carries what one of its statements does. -/
theorem nodes_around (hC : Carrier C) {pre post : List Node} {pos : Position} {y : String → Stmt}
    (hflush : (∀ n ∈ post, n.stmt.isBlock = false) ∨ Flushes C)
    (hpre : ∀ x ∈ Node.statements pre, x.isExtending = false)
    (hpost : ∀ x ∈ Node.statements post, x.isExtending = false)
    (hblock : ∀ v, (y v).isBlock = false)
    (hhook : ∀ v, env.compiler.handled (·.statement (.mk (y v) pos)) = none)
    (h : Carries C id fun v => stmt env .layout (y v)) :
    Carries C (·, true) fun v => nodes env .layout (pre ++ .mk (y v) pos :: post) true "" := by
  simp only [nodes_append]
  refine .before (nodes_writes hquiet pre hpre "") fun p hp => ?_
  obtain ⟨code, registering⟩ := p
  obtain ⟨s₀, t₀, hp⟩ := hp
  have hreg : registering = true :=
    nodes_registering (fun n hn => hpre _ (Node.stmt_mem_statements hn)) hp
  subst hreg
  intro s b hs hb hnum
  obtain ⟨r, M, t, hkept, hrun, hC'⟩ := step_carries hC hblock hhook code h s b hs hb hnum
  rcases hC' with ⟨e, he⟩ | ⟨F, hF, hC'⟩
  · refine ⟨fun _ => .error e, M, t, hkept, fun v => ?_, .inl ⟨e, fun _ => rfl⟩⟩
    dsimp only
    rw [nodes, exec_bind, hrun v, he v]
    rfl
  · obtain ⟨r', M', u, hkept', hrun', hC''⟩ :=
      nodes_after hquiet hC hflush hpost hC' (hs.kept hkept) hb
    refine ⟨r', M', u, hkept.trans hkept', fun v => ?_, hC''⟩
    dsimp only
    rw [nodes, exec_bind, hrun v, hF v]
    exact hrun' v

theorem list_carries {ns : String → List Node} (hne : ∀ v, (ns v).isEmpty = false)
    (h : Carries C (·, true) fun v => nodes env .layout (ns v) true "") :
    Carries C id fun v => list env .layout (ns v) := by
  intro s b hs hb hnum
  obtain ⟨r, M, t, hkept, hrun, hC⟩ := h s (b.deeper .layout) hs (b.inside_deeper .layout rfl) hnum
  refine ⟨r, M, t, hkept, fun v => ?_, hC⟩
  have hreg : ∀ p, (r v).map (fun code => (code, true)) = .ok p →
      p.2 = (Mode.layout == .layout) := by
    cases r v <;> simp [Except.map]
  dsimp only
  unfold list
  rw [hne v]
  refine (exec_sequence_over hs (fun _ => hb) hreg (hrun v)).trans ?_
  cases r v <;> rfl

/-- The statement may stand in a place of a layout. -/
structure Bare (x : Stmt) : Prop where
  block : x.isBlock = false
  forElse : ∀ pos, (Node.mk x pos).isForElse = false

theorem Shell.bare (shell : Shell) (ns : List Node) : Bare (shell.fill ns) := by
  cases shell <;> exact ⟨rfl, fun _ => rfl⟩

theorem Hole.any_isForElse (hole : Hole) {x x' : Stmt} (hx : Bare x) (hx' : Bare x') :
    (hole.fill x).any Node.isForElse = (hole.fill x').any Node.isForElse := by
  cases hole with
  | here before after pos => simp [Hole.fill, hx.forElse, hx'.forElse]
  | inside before after pos shell hole =>
    simp [Hole.fill, (shell.bare _).forElse]

theorem Hole.isEmpty_fill (hole : Hole) (x : Stmt) : (hole.fill x).isEmpty = false := by
  cases hole <;> simp [Hole.fill]

theorem Shell.statements_fill {shell : Shell} {ns : List Node} {x : Stmt}
    (h : x ∈ Node.statements ns) :
    x ∈ (shell.fill ns).statements := by
  cases shell <;> simp [Shell.fill, Stmt.statements, Node.statementsOption, h]

theorem Hole.statements_fill {y x : Stmt} (h : y ∈ x.statements) : ∀ hole : Hole,
    y ∈ Node.statements (hole.fill x)
  | .here before after pos => by
    rw [Hole.fill, Node.statements_append, Node.statements]
    exact List.mem_append_right _ (List.mem_append_left _ h)
  | .inside before after pos shell hole => by
    rw [Hole.fill, Node.statements_append, Node.statements]
    exact List.mem_append_right _
      (List.mem_append_left _ (Shell.statements_fill (hole.statements_fill h)))

include hquiet in
/-- A tree carries what the statement in one of its places does. -/
theorem hole_carries (hC : Carrier C) {x : String → Stmt} (hx : ∀ v, Bare (x v))
    (h : Carries C id fun v => stmt env .layout (x v)) : ∀ {hole : Hole}, hole.isLast = true ∨
      Flushes C →
    (∀ v, ∀ n ∈ hole.path (x v), env.compiler.handled (·.statement n) = none) →
    (∀ y ∈ Node.statements (hole.fill (x "")), y.isExtending = false) →
    Carries C (·, true) fun v => nodes env .layout (hole.fill (x v)) true ""
  | .here before after pos, hflush, hhooks, hext => by
    simp only [Hole.fill, Node.statements_append, Node.statements, List.forall_mem_append] at hext
    refine nodes_around hquiet hC (hflush.imp_left fun hlast n hn => ?_) hext.1 hext.2.2
      (fun v => (hx v).block) (fun v => hhooks v _ List.mem_cons_self) h
    simpa using List.all_eq_true.1 hlast n hn
  | .inside before after pos shell hole, hflush, hhooks, hext => by
    simp only [Hole.fill, Node.statements_append, Node.statements, List.forall_mem_append] at hext
    have hlast : hole.isLast = true ∨ Flushes C := hflush.imp_left fun hlast => by
      simp only [Hole.isLast, Bool.and_eq_true] at hlast
      exact hlast.2
    have hinner := hole_carries hC hx h hlast (fun v n hn => hhooks v n (List.mem_cons_of_mem _ hn))
      fun y hy => hext.2.1 y (Shell.statements_fill hy)
    have hlist := list_carries (fun v => hole.isEmpty_fill (x v)) hinner
    have hshell := shell_carries hquiet hC shell
      (fun v => hole.any_isForElse (hx v) (hx "")) hext.2.1 hlist
    refine nodes_around hquiet hC (hflush.imp_left fun hlast n hn => ?_) hext.1 hext.2.2
      (fun v => (shell.bare _).block) (fun v => hhooks v _ List.mem_cons_self) hshell
    simp only [Hole.isLast, Bool.and_eq_true] at hlast
    simpa using List.all_eq_true.1 hlast.1 n hn

end

end Emit
end Stencil
