/-
# What a template that extends another one registers

Once a template extends a layout, each of its blocks is registered, wherever it stands: at
the top, in a branch or in a loop, but not inside another block. A later block of a name
takes the place of an earlier one. All else that is emitted is lost. What is left of it in
the state are the macros and the loop stem, since loops forget their records when they are
closed.

`Registers` says this of an emission that succeeds, given the blocks that it registers in
order. The level of loops is fixed in it, because a record of the loop that is open
may be left behind until that is closed.

Key definitions: `Node.registered`, `Node.lastRegistered?`, `Emit.Registered`, `Emit.Registers`.
Key theorems: `Emit.nodes_registers`, `Emit.extendingList_registers`.
-/
import Stencil.Proofs.Merging
import Stencil.Proofs.Pinned
import Stencil.Proofs.Stable

namespace Stencil

mutual

/-- The blocks of a statement that are in no other block, in order. -/
def Stmt.registered : Stmt → List (String × List Node)
  | .block name body => [(name, body)]
  | .ifThen _ body elseBody => Node.registered body ++ Node.registeredOption elseBody
  | .switchOn _ body => Node.registered body
  | .forIn _ _ _ _ body => Node.registered body
  | .macroDef _ _ body => Node.registered body
  | .autoescape _ body => Node.registered body
  | .cached _ _ body => Node.registered body
  | _ => []

/-- The blocks of nodes that are in no other block, in order. -/
def Node.registered : List Node → List (String × List Node)
  | [] => []
  | .mk s _ :: rest => s.registered ++ Node.registered rest

/-- The blocks of nodes, if there are any. -/
def Node.registeredOption : Option (List Node) → List (String × List Node)
  | none => []
  | some ns => Node.registered ns

end

/-- The last body under a name. -/
def lastBody? (name : String) (blocks : List (String × List Node)) : Option (List Node) :=
  blocks.reverse.lookup name

/-- The body of the last block of a name that is in no other block. -/
def Node.lastRegistered? (name : String) (ns : List Node) : Option (List Node) :=
  lastBody? name (Node.registered ns)

theorem lastBody?_append (name : String) (as bs : List (String × List Node)) :
    lastBody? name (as ++ bs) = (lastBody? name bs).or (lastBody? name as) := by
  unfold lastBody?
  rw [List.reverse_append, List.lookup_append]

namespace Emit

/-! ### States after blocks have been registered -/

/-- From `s` to `t` these blocks have been registered, macros defined and the loop open in
`s` recorded. -/
structure Registered (env : Env) (blocks : List (String × List Node)) (s t : State) : Prop where
  frame : t = { s with
    blocks := t.blocks, macros := t.macros, recorded := t.recorded
    branches := t.branches, stem := t.stem }
  named : ∀ name, t.blocks.named? name =
    ((lastBody? name blocks).map .nodes).or (s.blocks.named? name)
  recorded : ∀ depth ∈ t.recorded, depth ∈ s.recorded ∨ (depth = s.loopLevel ∧ 0 < depth)
  branches : ∀ b ∈ t.branches, b ∈ s.branches ∨ (b.1 = s.loopLevel ∧ 0 < b.1)
  stem : ∀ x, t.stem = some x → s.stem = some x ∨ x = env.compiler.stemFor env.source

namespace Registered

variable {env : Env} {s t u : State} {as bs : List (String × List Node)}

theorem refl (s : State) : Registered env [] s s :=
  ⟨rfl, fun _ => rfl, fun _ h => .inl h, fun _ h => .inl h, fun _ h => .inl h⟩

theorem loopLevel (h : Registered env as s t) : t.loopLevel = s.loopLevel := by rw [h.frame]

theorem extended (h : Registered env as s t) : t.extended = s.extended := by rw [h.frame]

theorem currentBlock (h : Registered env as s t) : t.currentBlock = s.currentBlock := by
  rw [h.frame]

theorem trans (h : Registered env as s t) (h' : Registered env bs t u) :
    Registered env (as ++ bs) s u where
  frame := by rw [h'.frame, h.frame]
  named name := by
    rw [h'.named, h.named, lastBody?_append]
    cases lastBody? name bs <;> rfl
  recorded depth hd := by
    rcases h'.recorded depth hd with hd | hd
    · exact h.recorded depth hd
    · exact .inr (h.loopLevel ▸ hd)
  branches b hb := by
    rcases h'.branches b hb with hb | hb
    · exact h.branches b hb
    · exact .inr (h.loopLevel ▸ hb)
  stem x hx := by
    rcases h'.stem x hx with hx | hx
    · exact h.stem x hx
    · exact .inr hx

end Registered

/-- In a template that extends another one, outside of overridden blocks and with `depth`
loops open, the emission registers these blocks if it succeeds. -/
def Registers {α : Type} (env : Env) (depth : Nat) (blocks : List (String × List Node))
    (m : EmitM α) : Prop :=
  ∀ s a t, s.extended = true → s.currentBlock = none → s.loopLevel = depth → exec m s = (.ok a, t) →
    Registered env blocks s t

namespace Registers

variable {α β : Type} {env : Env} {depth : Nat} {as bs : List (String × List Node)} {m : EmitM α}

theorem pure (a : α) : Registers env depth [] (Pure.pure a : EmitM α) := by
  rintro s _ _ - - - ⟨⟩
  exact .refl s

/-- An emission that never succeeds. -/
theorem never (h : ∀ s a t, exec m s ≠ (.ok a, t)) : Registers env depth as m :=
  fun s a t _ _ _ hrun => absurd hrun (h s a t)

theorem throw (e : CompileError) : Registers env depth as (MonadExcept.throw e : EmitM α) :=
  .never fun s a t h => by
    have hrun : ((.error e, s) : Except CompileError α × State) = (.ok a, t) := h
    cases hrun

theorem fail (cause : Location → CompileError) :
    Registers env depth as (Emit.fail env cause : EmitM α) :=
  .never fun s a t h => by
    rw [exec_fail] at h
    cases h

theorem bind_of {f : α → EmitM β} (h : Registers env depth as m)
    (hf : ∀ a, (∃ s t, exec m s = (.ok a, t)) → Registers env depth bs (f a)) :
    Registers env depth (as ++ bs) (m >>= f) := by
  intro s b u hext hblock hdepth hrun
  obtain ⟨a, t, hm, hfa⟩ := exec_bind_eq_ok.1 hrun
  have hmid := h s a t hext hblock hdepth hm
  exact hmid.trans
    (hf a ⟨s, t, hm⟩ t b u (hmid.extended.trans hext) (hmid.currentBlock.trans hblock)
    (hmid.loopLevel.trans hdepth) hfa)

theorem bind {f : α → EmitM β} (h : Registers env depth as m)
    (hf : ∀ a, Registers env depth bs (f a)) :
    Registers env depth (as ++ bs) (m >>= f) := h.bind_of fun a _ => hf a

/-- Something before that registers nothing. -/
theorem after {f : α → EmitM β} (h : Registers env depth [] m)
    (hf : ∀ a, Registers env depth bs (f a)) :
    Registers env depth bs (m >>= f) := h.bind hf

/-- The result is made from another one. -/
theorem bind_pure (h : Registers env depth as m) (f : α → β) :
    Registers env depth as (m >>= fun a => Pure.pure (f a)) := by
  have hpure : ∀ a, Registers env depth [] (Pure.pure (f a) : EmitM β) := fun a => .pure (f a)
  have hboth := h.bind hpure
  rwa [List.append_nil] at hboth

/-- The state may be read. -/
theorem get_bind {f : State → EmitM α}
    (h : ∀ s, s.extended = true → s.loopLevel = depth → Registers env depth as (f s)) :
    Registers env depth as (get >>= f) := by
  intro s a t hext hblock hdepth hrun
  rw [exec_bind, exec_get] at hrun
  exact h s hext hdepth s a t hext hblock hdepth hrun

theorem modify {upd : State → State} (h : ∀ s, s.loopLevel = depth → Registered env as s (upd s)) :
    Registers env depth as (modify upd) := by
  rintro s _ _ - - hdepth ⟨⟩
  exact h s hdepth

/-- A change that is undone, and does not touch what is registered. -/
theorem within {enter : State → State} {leave : State → State → State}
    (h : Registers env depth as m)
    (hin : ∀ s, (enter s).extended = s.extended ∧ (enter s).currentBlock = s.currentBlock ∧
      (enter s).loopLevel = s.loopLevel)
    (hout : ∀ s t, Registered env as (enter s) t → Registered env as s (leave s t)) :
    Registers env depth as (Emit.within enter leave m) := by
  intro s a t hext hblock hdepth hrun
  rw [exec_within, Prod.mk.injEq] at hrun
  obtain ⟨hr, rfl⟩ := hrun
  obtain ⟨hext', hblock', hdepth'⟩ := hin s
  exact hout s _
    (h _ a _ (hext'.trans hext) (hblock'.trans hblock) (hdepth'.trans hdepth) (Prod.ext hr rfl))

end Registers

section
variable {env : Env} {depth : Nat}

theorem loopStem_registers : Registers env depth [] (loopStem env) := by
  refine .get_bind fun s _ _ => ?_
  dsimp only
  split
  · exact .pure _
  · split
    · refine Registers.after (.modify fun s _ => ?_) fun _ => .pure _
      exact ⟨rfl, fun _ => rfl, fun _ h => .inl h, fun _ h => .inl h,
        fun x hx => .inr (Option.some.inj hx).symm⟩
    · exact .throw _

theorem identifier_registers (name : String) : Registers env depth [] (identifier env name) := by
  refine .get_bind fun s _ hdepth => ?_
  dsimp only
  split
  · rename_i hloop
    refine Registers.after (.modify fun t ht => ?_) fun _ => ?_
    · refine ⟨rfl, fun _ => rfl, fun d hd => ?_, fun _ h => .inl h, fun _ h => .inl h⟩
      rcases List.mem_cons.1 hd with rfl | hd
      · exact .inr ⟨hdepth.trans ht.symm, hloop.2⟩
      · exact .inl hd
    · exact loopStem_registers.bind_pure _
  · split <;> exact .pure _

section
variable {α : Type} {blocks : List (String × List Node)} {m : EmitM α}
  (h : Registers env depth blocks m)
include h

theorem inExpr_registers : Registers env depth blocks (inExpr m) := by
  refine h.within (fun s => ⟨rfl, rfl, rfl⟩) fun s t ht =>
    ⟨?_, ht.named, ht.recorded, ht.branches, ht.stem⟩
  rw [ht.frame]
  rfl

theorem inStmt_registers (pos : Position) : Registers env depth blocks (inStmt pos m) := by
  refine h.within (fun s => ⟨rfl, rfl, rfl⟩) fun s t ht =>
    ⟨?_, ht.named, ht.recorded, ht.branches, ht.stem⟩
  rw [ht.frame]

theorem inAutoescape_registers (enabled : Bool) :
    Registers env depth blocks (inAutoescape enabled m) := by
  refine h.within (fun s => ⟨rfl, rfl, rfl⟩) fun s t ht =>
    ⟨?_, ht.named, ht.recorded, ht.branches, ht.stem⟩
  rw [ht.frame]

theorem inList_registers (counted : Bool) : Registers env depth blocks (inList counted m) := by
  refine h.within (fun s => ⟨rfl, rfl, rfl⟩) fun s t ht =>
    ⟨?_, ht.named, ht.recorded, ht.branches, ht.stem⟩
  rw [ht.frame]
  simp

end

/-! ### Expressions -/

/-- Outside of overridden blocks, expressions register nothing. -/
theorem registers_congruence (hquiet : env.Quiet) :
    Congruence env env fun _ m _ => Registers env depth [] m where
  pure := .pure
  throw := .throw
  bind := .after
  inExpr := inExpr_registers
  fail := .fail
  identifier := identifier_registers
  super := by
    intro s a t _ hblock _ hrun
    rw [hquiet s hblock] at hrun
    cases hrun
    exact .refl s
  expression _ := rfl
  function _ _ _ := rfl
  filter _ _ _ := rfl
  functions := rfl
  filters := rfl

section
variable (hquiet : env.Quiet)
include hquiet

theorem expr_registers (e : Expr) : Registers env depth [] (expr env e) :=
  expr_related (registers_congruence hquiet) e

theorem required_registers {α : Type} (part : Stmt.Part) (a : Option α) :
    Registers env depth [] (required env part a) :=
  required_related (registers_congruence hquiet) part a

theorem expr?_registers (e : Option Expr) : Registers env depth [] (expr? env e) :=
  expr?_related (registers_congruence hquiet) e

/-- An expression that a statement cannot do without, and then what it is for. -/
theorem operand_registers {β : Type} {blocks : List (String × List Node)} (part : Stmt.Part)
    (e : Option Expr) {f : String → EmitM β} (hf : ∀ code, Registers env depth blocks (f code)) :
    Registers env depth blocks (required env part e >>= fun e => expr env e >>= f) :=
  (required_registers hquiet part e).after fun e => (expr_registers hquiet e).after hf

theorem echo_registers (e : Option Expr) : Registers env depth [] (echo env e) := by
  refine (required_registers hquiet _ e).after fun e =>
    (expr_registers hquiet e).after fun code => ?_
  split
  · exact .pure _
  · refine .get_bind fun s _ _ => ?_
    split <;> exact .pure _

theorem includeView_registers (path params : Option Expr)
    (hlink : (Stmt.including path params).link? = none) :
    Registers env depth [] (includeView env path params) := by
  unfold includeView
  cases path with
  | none =>
    rw [required, fail_bind]
    exact .fail _
  | some path =>
    rw [required, pure_bind]
    split
    · cases hlink
    · exact (expr_registers hquiet path).bind_pure _
    · exact (expr_registers hquiet path).after fun _ => (expr_registers hquiet _).bind_pure _

omit hquiet

/-! ### Statements without a body -/

theorem defineMacro_registers (name : String) : Registers env depth [] (defineMacro env name) := by
  refine .get_bind fun s _ _ => ?_
  split
  · exact .fail _
  · exact .modify fun s _ =>
      ⟨rfl, fun _ => rfl, fun _ h => .inl h, fun _ h => .inl h, fun _ h => .inl h⟩

theorem forElse_registers : Registers env depth [] forElse := by
  refine .get_bind fun s _ _ => ?_
  split <;> exact .pure _

theorem extendView_registers (path : Option Expr) (hlink : (Stmt.extending path).link? = none) :
    Registers env depth [] (extendView env path) := by
  unfold extendView
  split
  · cases hlink
  · exact .fail _

theorem segment_registers (code : String) : Registers env depth [] (segment code) := by
  intro s a t _ _ _ hrun
  rw [exec_segment] at hrun
  cases hrun
  exact ⟨rfl, fun name => BlockMap.named?_segment s.blocks code name, fun _ h => .inl h,
    fun _ h => .inl h,
    fun _ h => .inl h⟩

theorem register_registers (name : String) (body : List Node) :
    Registers env depth [(name, body)] (register name body) := by
  refine .modify fun s _ =>
    ⟨rfl, fun n => ?_, fun _ h => .inl h, fun _ h => .inl h, fun _ h => .inl h⟩
  dsimp only
  rw [BlockMap.named?_define, lastBody?, List.reverse_singleton, lookup_cons_ite]
  split <;> rfl

/-! ### Statement lists -/

/-- What is left at the end of an outermost list is its last segment. -/
theorem lastSegment_registers (p : String × Bool) : Registers env depth [] (do
    if p.2 && (← get).blockLevel == 0 then segment p.1
    return p.1) := by
  refine .get_bind fun t _ _ => ?_
  split
  · exact (segment_registers p.1).bind_pure _
  · exact .pure _

/-- All lists register their blocks. -/
theorem sequence_registers (mode : Mode) {ns : List Node} {emit : Bool → EmitM (String × Bool)}
    (h : Registers env depth (Node.registered ns) (emit true)) :
    Registers env depth (Node.registered ns) (sequence mode ns.isEmpty emit) := by
  unfold sequence
  cases ns with
  | nil => exact .pure _
  | cons n rest =>
    refine .get_bind fun s hext _ => ?_
    rw [hext, Bool.true_or]
    have hall := (inList_registers h true).bind lastSegment_registers
    rwa [List.append_nil] at hall

/-- Where blocks are registered, they are so to the end of the list. -/
theorem step_stays_registering (hext : env.compiler.extensions = []) {n : Node} {code : String}
    {emit : EmitM String} {s t : State} {p : String × Bool}
    (h : exec (step env n true code emit) s = (.ok p, t)) :
    p.2 = true := by
  rw [step_unhandled (Compiler.handled_eq_none hext _), inStmt, exec_within, Prod.mk.injEq] at h
  cases hx : n.stmt.isBlock with
  | true =>
    obtain ⟨name, body, hblock⟩ := Stmt.eq_block hx
    rw [hblock, exec_place_block] at h
    cases h.1
    rfl
  | false =>
    rw [place_inline (.inl hx)] at h
    obtain ⟨more, u, -, hpure⟩ := exec_bind_eq_ok.1 (Prod.ext h.1 rfl)
    cases hpure
    rfl

theorem step_registers {x : Stmt} (hext : env.compiler.extensions = []) (pos : Position)
    (code : String)
    {emit : EmitM String} (h : x.isBlock = false → Registers env depth x.registered emit) :
    Registers env depth x.registered (step env (.mk x pos) true code emit) := by
  rw [step_unhandled (Compiler.handled_eq_none hext _)]
  refine inStmt_registers ?_ _
  cases hx : x.isBlock with
  | true =>
    obtain ⟨name, body, rfl⟩ := Stmt.eq_block hx
    refine (segment_registers code).after fun _ => ?_
    exact (register_registers name body).bind_pure _
  | false =>
    show Registers env depth x.registered (place true code x emit)
    rw [place_inline (.inl hx)]
    exact (h hx).bind_pure _

/-! ### Loops -/

/-- What is known of a loop is forgotten when it is closed. -/
theorem turn_forgets {target : String} {key : Option String} {iterable : Expr} {guard : Option Expr}
    {branched : Bool} {body : EmitM String} {s t : State} {code : String}
    (h : exec (turn env target key iterable guard branched body) s = (.ok code, t)) :
    s.loopLevel ∉ t.recorded ∧ ∀ b ∈ t.branches, b.1 ≠ s.loopLevel := by
  unfold turn at h
  rw [exec_bind, exec_get] at h
  obtain ⟨_, s₁, -, h⟩ := exec_bind_eq_ok.1 h
  obtain ⟨_, s₂, -, h⟩ := exec_bind_eq_ok.1 h
  obtain ⟨_, s₃, -, h⟩ := exec_bind_eq_ok.1 h
  obtain ⟨_, s₄, -, h⟩ := exec_bind_eq_ok.1 h
  obtain ⟨_, s₅, -, h⟩ := exec_bind_eq_ok.1 h
  obtain ⟨_, s₆, -, h⟩ := exec_bind_eq_ok.1 h
  obtain ⟨recorded, u, htake, h⟩ := exec_bind_eq_ok.1 h
  have ht : t = s₆.clearLoop s.loopLevel := by
    cases h
    cases htake
    rfl
  rw [ht]
  simp [State.clearLoop]

theorem noteBranch_registers (hdepth : 0 < depth) (branch : Branch) (branched : Bool) :
    Registers env depth [] (noteBranch depth branch branched) := by
  unfold noteBranch
  split
  · refine .modify fun s hs =>
      ⟨rfl, fun _ => rfl, fun _ h => .inl h, fun b hb => ?_, fun _ h => .inl h⟩
    rcases List.mem_cons.1 hb with rfl | hb
    · exact .inr ⟨hs.symm, hdepth⟩
    · exact .inl hb
  · exact .pure _

theorem clearLoop_registers (loop : Nat) : Registers env depth [] (modify (·.clearLoop loop)) :=
  .modify fun _ _ => ⟨rfl, fun _ => rfl, fun _ h => .inl (List.mem_filter.1 h).1,
    fun _ h => .inl (List.mem_filter.1 h).1, fun _ h => .inl h⟩

theorem turn_registers (hquiet : env.Quiet) (hdepth : 0 < depth) (target : String)
    (key : Option String)
    (iterable : Expr) (guard : Option Expr) (branched : Bool) {blocks : List (String × List Node)}
    {body : EmitM String} (h : Registers env depth blocks body) :
    Registers env depth blocks (turn env target key iterable guard branched body) := by
  have htake : ∀ loop : Nat, Registers env depth [] (takeRecorded loop) :=
    fun loop => .get_bind fun _ _ _ => (clearLoop_registers loop).bind_pure _
  refine .get_bind fun s _ hs => ?_
  rw [hs]
  refine loopStem_registers.after fun stem =>
    (expr_registers hquiet iterable).after fun source => ?_
  refine (clearLoop_registers depth).after fun _ =>
    (noteBranch_registers hdepth _ branched).after fun _ => ?_
  refine (expr?_registers hquiet guard).after fun guard => ?_
  have hrest := h.bind fun body => (htake depth).bind_pure fun recorded =>
    Code.Loop.code ⟨stem ++ toString depth, source, target, key, guard, body, recorded, branched⟩
  rwa [List.append_nil] at hrest

theorem loop_registers (hquiet : env.Quiet) (target : String) (key : Option String)
    (iterable : Expr) (guard : Option Expr) (branched : Bool) {blocks : List (String × List Node)}
    {body : EmitM String} (h : Registers env (depth + 1) blocks body) :
    Registers env depth blocks (loop env target key iterable guard branched body) := by
  intro s code t hext hblock hdepth hrun
  rw [loop, inLoop, exec_within, Prod.mk.injEq] at hrun
  obtain ⟨hcode, rfl⟩ := hrun
  generalize hturn : exec (turn env target key iterable guard branched body)
    { s with loopLevel := s.loopLevel + 1 } = run at hcode ⊢
  obtain ⟨r, u⟩ := run
  cases hcode
  have hopened : { s with loopLevel := s.loopLevel + 1 }.loopLevel = depth + 1 := by rw [← hdepth]
  have hinside := turn_registers hquiet depth.succ_pos target key iterable guard branched h
    { s with loopLevel := s.loopLevel + 1 } code u hext hblock hopened hturn
  obtain ⟨hrecorded, hbranches⟩ := turn_forgets hturn
  refine ⟨?_, hinside.named, fun d hd => ?_, fun b hb => ?_, hinside.stem⟩
  · dsimp only
    rw [hinside.frame]
    rfl
  · rcases hinside.recorded d hd with hold | ⟨rfl, -⟩
    · exact .inl hold
    · exact absurd hd hrecorded
  · rcases hinside.branches b hb with hold | ⟨heq, -⟩
    · exact .inl hold
    · exact absurd heq (hbranches b hb)

/-! ### Statements -/

mutual

/-- A statement that names no template registers the blocks in it. -/
theorem stmt_registers (hquiet : env.Quiet) (hext : env.compiler.extensions = []) (mode : Mode) :
    ∀ (x : Stmt) (depth : Nat), (∀ y ∈ x.statements, y.link? = none) → x.isBlock = false →
    Registers env depth x.registered (stmt env mode x)
  | .text _, _, _, _ | .caseDefault, _, _, _ | .continueLoop, _, _, _ | .breakLoop, _, _, _ => by
    rw [stmt]
    exact .pure _
  | .echo e, _, _, _ => by
    rw [stmt]
    exact echo_registers hquiet e
  | .ifThen condition body elseBody, depth, hlinks, _ => by
    simp only [Stmt.statements, List.forall_mem_cons, List.forall_mem_append] at hlinks
    rw [stmt, Stmt.registered]
    refine operand_registers hquiet _ _ fun _ => ?_
    refine (sequence_registers mode
      (nodes_registers hquiet hext mode body depth hlinks.2.1 "")).bind fun _ => ?_
    exact (elseCode_registers hquiet hext mode elseBody depth hlinks.2.2).bind_pure _
  | .elseIf _, _, _, _ | .caseOf _, _, _, _ | .evaluate _, _, _, _ | .returning _, _, _, _ => by
    rw [stmt]
    exact operand_registers hquiet _ _ fun _ => .pure _
  | .switchOn subject cases, depth, hlinks, _ => by
    simp only [Stmt.statements, List.forall_mem_cons] at hlinks
    rw [stmt, Stmt.registered]
    refine operand_registers hquiet _ _ fun _ => ?_
    exact (sequence_registers mode
      (nodes_registers hquiet hext mode cases depth hlinks.2 "")).bind_pure _
  | .forIn target key iterable guard body, depth, hlinks, _ => by
    simp only [Stmt.statements, List.forall_mem_cons] at hlinks
    rw [stmt, Stmt.registered]
    refine (required_registers hquiet _ _).after fun e =>
      loop_registers hquiet target key e guard _ ?_
    exact sequence_registers mode (nodes_registers hquiet hext mode body (depth + 1) hlinks.2 "")
  | .forElse, _, _, _ => by
    rw [stmt]
    exact forElse_registers
  | .assign as, _, _, _ => by
    rw [stmt]
    exact assign_related (registers_congruence hquiet) as
  | .block _ _, _, _, hblock => by cases hblock
  | .extending path, _, hlinks, _ => by
    rw [stmt]
    exact (extendView_registers path (hlinks _ (Stmt.mem_statements _))).bind_pure _
  | .including path params, _, hlinks, _ => by
    rw [stmt]
    exact includeView_registers hquiet path params (hlinks _ (Stmt.mem_statements _))
  | .macroDef name params body, depth, hlinks, _ => by
    simp only [Stmt.statements, List.forall_mem_cons] at hlinks
    rw [stmt, Stmt.registered]
    refine (defineMacro_registers name).after fun _ => ?_
    refine Registers.after (parameters_related (registers_congruence hquiet) name 0 params)
      fun _ => ?_
    exact (sequence_registers mode
      (nodes_registers hquiet hext mode body depth hlinks.2 "")).bind_pure _
  | .autoescape enabled body, depth, hlinks, _ => by
    simp only [Stmt.statements, List.forall_mem_cons] at hlinks
    rw [stmt, Stmt.registered]
    refine (required_registers hquiet _ _).after fun _ => inAutoescape_registers ?_ _
    exact sequence_registers mode (nodes_registers hquiet hext mode body depth hlinks.2 "")
  | .cached key lifetime body, depth, hlinks, _ => by
    simp only [Stmt.statements, List.forall_mem_cons] at hlinks
    rw [stmt, Stmt.registered]
    refine operand_registers hquiet _ _ fun _ => (expr?_registers hquiet lifetime).after fun _ => ?_
    exact (sequence_registers mode
      (nodes_registers hquiet hext mode body depth hlinks.2 "")).bind_pure _
  | .unknown, _, _, _ => by
    rw [stmt]
    exact .fail _

theorem elseCode_registers (hquiet : env.Quiet) (hext : env.compiler.extensions = [])
    (mode : Mode) :
    ∀ (ns : Option (List Node)) (depth : Nat), (∀ y ∈ Node.statementsOption ns, y.link? = none) →
    Registers env depth (Node.registeredOption ns) (elseCode env mode ns)
  | none, _, _ => by
    rw [elseCode]
    exact .pure _
  | some ns, depth, hlinks => by
    rw [elseCode]
    exact (sequence_registers mode
      (nodes_registers hquiet hext mode ns depth hlinks "")).bind_pure _

/-- Nodes register their blocks, where blocks are registered. -/
theorem nodes_registers (hquiet : env.Quiet) (hext : env.compiler.extensions = []) (mode : Mode) :
    ∀ (ns : List Node) (depth : Nat), (∀ y ∈ Node.statements ns, y.link? = none) → ∀ code : String,
    Registers env depth (Node.registered ns) (nodes env mode ns true code)
  | [], _, _, _ => by
    rw [nodes]
    exact .pure _
  | .mk x pos :: rest, depth, hlinks, code => by
    rw [Node.statements, List.forall_mem_append] at hlinks
    rw [nodes, Node.registered]
    have hx : Registers env depth x.registered (step env (.mk x pos) true code (stmt env mode x)) :=
      step_registers hext pos code fun hblock =>
        stmt_registers hquiet hext mode x depth hlinks.1 hblock
    refine hx.bind_of fun p hp => ?_
    obtain ⟨more, registering⟩ := p
    obtain ⟨s, t, hp⟩ := hp
    obtain rfl : registering = true := step_stays_registering hext hp
    exact nodes_registers hquiet hext mode rest depth hlinks.2 more

end
end

theorem extendingList_registers (hquiet : env.Quiet) (hext : env.compiler.extensions = [])
    {rest : List Node}
    (hlinks : Node.links rest = []) :
    Registers env 0 (Node.registered rest) (extendingList env rest) := by
  have hnodes : Registers env 0 (Node.registered rest) (nodes env .page rest true "") :=
    nodes_registers hquiet hext .page rest 0 (fun _ => Node.link?_of_links hlinks) ""
  have hall := (inList_registers hnodes false).bind lastSegment_registers
  rwa [List.append_nil] at hall

end

end Emit
end Stencil
