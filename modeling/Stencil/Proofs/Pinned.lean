/-
# Escaping follows the tree, but for registered blocks

Whether a printed value is escaped is a setting that statements switch while they are
emitted. So that this setting can be told from the tree, a template is pinned: each
print is put under a setting of its own. A page emits the same as its pinned tree, in
which a print has the setting of the nearest switch around it. A layout registers its
blocks as they are, and they are emitted later, under the setting that pages start
with: in its pinned tree no switch around an outermost block counts for what is in it.

Key definitions: `Node.pin`, `Emit.Write`, `Emit.Mirrors`.
Key theorems: `Emit.stmt_mirrors`, `Emit.nodes_mirrors`.
-/
import Stencil.Proofs.Backdrop
import Stencil.Proofs.BlockOrder
import Stencil.Proofs.Tree

namespace Stencil

/-- The setting that counts in a block, under the setting `a`: the one pages start with if the block
is registered. -/
def Mode.inBlock (start a : Bool) : Mode → Bool
  | .page => a
  | .layout => start

/-- The statement prints a value, which is no call of the parent's block. -/
def Stmt.isPrint : Stmt → Bool
  | .echo (some e) => !e.isSuper
  | _ => false

/-- The print under a setting of its own, other statements as they are. -/
def Stmt.pinned (a : Bool) (pos : Position) (s : Stmt) : Stmt :=
  if s.isPrint then .autoescape (some a) [.mk s pos] else s

mutual

/-- The statement with all prints in it pinned, where it stands under the setting `a`. -/
def Stmt.pin (start : Bool) (mode : Mode) (a : Bool) : Stmt → Stmt
  | .ifThen c b e => .ifThen c (Node.pin start mode a b) (Node.pinOption start mode a e)
  | .switchOn e b => .switchOn e (Node.pin start mode a b)
  | .forIn t k i g b => .forIn t k i g (Node.pin start mode a b)
  | .block n b => .block n (Node.pin start .page (mode.inBlock start a) b)
  | .macroDef n ps b => .macroDef n ps (Node.pin start mode a b)
  | .autoescape f b => .autoescape f (Node.pin start mode (f.getD a) b)
  | .cached k l b => .cached k l (Node.pin start mode a b)
  | s => s

/-- The nodes with all prints in them pinned. -/
def Node.pin (start : Bool) (mode : Mode) (a : Bool) : List Node → List Node
  | [] => []
  | .mk s pos :: rest =>
    .mk ((Stmt.pin start mode a s).pinned a pos) pos :: Node.pin start mode a rest

/-- The nodes, if there are any, with all prints in them pinned. -/
def Node.pinOption (start : Bool) (mode : Mode) (a : Bool) : Option (List Node) → Option (List Node)
  | none => none
  | some ns => some (Node.pin start mode a ns)

end

theorem Node.stmt_mem_statements {n : Node} :
    ∀ {ns : List Node}, n ∈ ns → n.stmt ∈ Node.statements ns
  | .mk s pos :: rest, h => by
    rw [Node.statements, List.mem_append]
    rcases List.mem_cons.1 h with rfl | h
    · exact .inl s.mem_statements
    · exact .inr (Node.stmt_mem_statements h)

section
variable {start a : Bool} {mode : Mode}

theorem Node.isEmpty_pin (ns : List Node) : (Node.pin start mode a ns).isEmpty = ns.isEmpty := by
  cases ns with
  | nil => rfl
  | cons n ns => obtain ⟨s, pos⟩ := n; rfl

theorem Stmt.eq_echo {s : Stmt} (h : s.isPrint = true) : ∃ e, s = .echo (some e) := by
  cases s with
  | echo e =>
    cases e with
    | none => cases h
    | some e => exact ⟨e, rfl⟩
  | _ => cases h

theorem Stmt.isPrint_pin (s : Stmt) : (s.pin start mode a).isPrint = s.isPrint := by cases s <;> rfl

theorem Stmt.isBlock_pin (s : Stmt) : (s.pin start mode a).isBlock = s.isBlock := by cases s <;> rfl

theorem Stmt.isExtending_pin (s : Stmt) : (s.pin start mode a).isExtending = s.isExtending := by
  cases s <;> rfl

theorem Stmt.pinned_of_isPrint {s : Stmt} (h : s.isPrint = false) (pos : Position) :
    (s.pin start mode a).pinned a pos = s.pin start mode a := by
  rw [Stmt.pinned, Stmt.isPrint_pin, h, if_neg Bool.false_ne_true]

theorem Stmt.isForElse_pinned (s : Stmt) (pos : Position) :
    (Node.mk ((Stmt.pin start mode a s).pinned a pos) pos).isForElse =
      (Node.mk s pos).isForElse := by
  cases s with
  | echo e =>
    unfold Stmt.pinned
    split <;> rfl
  | _ => rfl

theorem Node.any_isForElse_pin (ns : List Node) :
    (Node.pin start mode a ns).any Node.isForElse = ns.any Node.isForElse := by
  induction ns with
  | nil => rfl
  | cons n ns ih =>
    obtain ⟨s, pos⟩ := n
    rw [Node.pin, List.any_cons, List.any_cons, ih, Stmt.isForElse_pinned]

end

namespace Emit

/-! ### What statements write -/

/-- What an emission adds to the blocks. -/
inductive Write where
  | segment (code : String)
  | define (name : String) (body : List Node)

/-- A registered body with all prints in it pinned. -/
def Write.pin (start : Bool) : Write → Write
  | .segment code => .segment code
  | .define name body => .define name (Node.pin start .page start body)

/-- The blocks after one thing has been added. -/
def Write.to (m : BlockMap) : Write → BlockMap
  | .segment code => m.segment code
  | .define name body => m.define name (.nodes body)

/-- The backdrop with other blocks. -/
def Backdrop.hold (b : Backdrop) (m : BlockMap) : Backdrop := { b with blocks := m }

/-- The backdrop after blocks have been added. -/
def Backdrop.write (b : Backdrop) (ws : List Write) : Backdrop :=
  b.hold (ws.foldl Write.to b.blocks)

/-- The backdrop inside one more statement list. -/
def Backdrop.deeper (b : Backdrop) (mode : Mode) : Backdrop :=
  { b with level := b.level + 1, blockLevel := b.blockLevel + (mode == .layout).toNat }

/-- If blocks are registered, an open list does so. -/
def Backdrop.Inside (b : Backdrop) (mode : Mode) : Prop := mode = .layout → 0 < b.blockLevel

theorem Backdrop.write_append (b : Backdrop) (ws ws' : List Write) :
    b.write (ws ++ ws') = (b.write ws).write ws' := by
  simp [Backdrop.write, Backdrop.hold]

theorem Backdrop.inside_deeper (b : Backdrop) (mode : Mode) : (b.deeper mode).Inside mode := by
  rintro rfl
  exact Nat.succ_pos _

/-- No block is overridden and nothing is extended. -/
structure Calm (s : State) : Prop where
  currentBlock : s.currentBlock = none
  extended : s.extended = false

theorem Calm.kept {s t : State} (h : Calm s) (hkept : Kept s t) : Calm t :=
  ⟨hkept.currentBlock.trans h.currentBlock, hkept.extended.trans h.extended⟩

theorem Calm.enter {s : State} (h : Calm s) {enter : State → State} {leave : State → State → State}
    (B : Bracket enter leave) : Calm (enter s) :=
  ⟨(B.currentBlock s).trans h.currentBlock, (B.extended s).trans h.extended⟩

/-- A registered body extends nothing. -/
def Write.Settled : Write → Prop
  | .segment _ => True
  | .define _ body => ∀ y ∈ Node.statements body, y.isExtending = false

/-- What may be added to the blocks: nothing by a page. -/
structure Written (mode : Mode) (ws : List Write) : Prop where
  page : mode = .page → ws = []
  settled : ∀ w ∈ ws, w.Settled

theorem Written.nil (mode : Mode) : Written mode [] := ⟨fun _ => rfl, by simp⟩

theorem Written.append {mode : Mode} {ws ws' : List Write} (h : Written mode ws)
    (h' : Written mode ws') :
    Written mode (ws ++ ws') where
  page := fun hmode => by rw [h.page hmode, h'.page hmode]; rfl
  settled := List.forall_mem_append.2 ⟨h.settled, h'.settled⟩

/-- Under the setting `a` the two emissions do the same before all backdrops and add the
same to the blocks, but that bodies are pinned by the second one. -/
def Mirrors (start : Bool) (mode : Mode) (a : Bool) {α : Type} (m₁ m₂ : EmitM α) : Prop :=
  ∀ s : State, Calm s → s.autoescape = a → ∃ ws r t, Kept s t ∧ Written mode ws ∧
    ∀ b : Backdrop, b.Inside mode → exec m₁ (s.over b) = (r, t.over (b.write ws)) ∧
      exec m₂ (s.over b) = (r, t.over (b.write (ws.map (·.pin start))))

section
variable {start a : Bool} {mode : Mode} {α β : Type} {m₁ m₂ : EmitM α}

theorem Silent.mirrors {m : EmitM α} (h : Silent m) : Mirrors start mode a m m := by
  intro s hs _
  obtain ⟨r, t, hkept, hm⟩ := h s hs.currentBlock
  exact ⟨[], r, t, hkept, .nil mode, fun b _ => ⟨hm b, hm b⟩⟩

namespace Mirrors

theorem bind_of {f₁ f₂ : α → EmitM β} (h : Mirrors start mode a m₁ m₂)
    (hf : ∀ x, (∃ s t, exec m₁ s = (.ok x, t)) → Mirrors start mode a (f₁ x) (f₂ x)) :
    Mirrors start mode a (m₁ >>= f₁) (m₂ >>= f₂) := by
  intro s hs ha
  obtain ⟨ws, r, t, hkept, hws, hm⟩ := h s hs ha
  cases r with
  | error e =>
    refine ⟨ws, .error e, t, hkept, hws, fun b hb => ?_⟩
    rw [exec_bind, exec_bind, (hm b hb).1, (hm b hb).2]
    exact ⟨rfl, rfl⟩
  | ok x =>
    have hpossible : ∃ s t, exec m₁ s = (.ok x, t) :=
      ⟨_, _, (hm ((⟨.empty, 0, 1, none⟩ : Backdrop)) fun _ => Nat.one_pos).1⟩
    obtain ⟨ws', r, u, hkept', hws', hfx⟩ :=
      hf x hpossible t (hs.kept hkept) (hkept.autoescape.trans ha)
    refine ⟨ws ++ ws', r, u, hkept.trans hkept', hws.append hws', fun b hb => ?_⟩
    rw [exec_bind, exec_bind, (hm b hb).1, (hm b hb).2, List.map_append, Backdrop.write_append,
      Backdrop.write_append]
    exact ⟨(hfx (b.write ws) hb).1, (hfx (b.write _) hb).2⟩

theorem bind {f₁ f₂ : α → EmitM β} (h : Mirrors start mode a m₁ m₂)
    (hf : ∀ x, Mirrors start mode a (f₁ x) (f₂ x)) : Mirrors start mode a (m₁ >>= f₁) (m₂ >>= f₂) :=
  h.bind_of fun x _ => hf x

theorem bind_pure (f : α → β) (h : Mirrors start mode a m₁ m₂) :
    Mirrors start mode a (m₁ >>= fun x => pure (f x)) (m₂ >>= fun x => pure (f x)) :=
  h.bind fun x => (Silent.pure (f x)).mirrors

theorem get_bind {f₁ f₂ : State → EmitM α} (hf₁ : ∀ s b, f₁ (s.over b) = f₁ s)
    (hf₂ : ∀ s b, f₂ (s.over b) = f₂ s) (h : ∀ s, Mirrors start mode a (f₁ s) (f₂ s)) :
    Mirrors start mode a (get >>= f₁) (get >>= f₂) := by
  intro s hs ha
  obtain ⟨ws, r, t, hkept, hws, hm⟩ := h s s hs ha
  refine ⟨ws, r, t, hkept, hws, fun b hb => ?_⟩
  rw [exec_bind, exec_bind, exec_get]
  dsimp only
  rw [hf₁, hf₂]
  exact hm b hb

/-- Emissions run in a changed state, where the change is undone. -/
theorem within {a' : Bool} {enter : State → State} {leave : State → State → State}
    (h : Mirrors start mode a' m₁ m₂) (B : Bracket enter leave)
    (ha' : ∀ s, s.autoescape = a → (enter s).autoescape = a') :
    Mirrors start mode a (Emit.within enter leave m₁) (Emit.within enter leave m₂) := by
  intro s hs ha
  obtain ⟨ws, r, t, hkept, hws, hm⟩ := h (enter s) (hs.enter B) (ha' s ha)
  refine ⟨ws, r, leave s t, B.kept hkept, hws, fun b hb => ?_⟩
  rw [exec_within, exec_within, B.enter_over, (hm b hb).1, (hm b hb).2]
  exact ⟨congrArg _ (B.leave_over s t _ _), congrArg _ (B.leave_over s t _ _)⟩

theorem inStmt (pos : Position) (h : Mirrors start mode a m₁ m₂) :
    Mirrors start mode a (Emit.inStmt pos m₁) (Emit.inStmt pos m₂) :=
  h.within (bracket_stmt pos) fun _ ha => ha

theorem inLoop (h : Mirrors start mode a m₁ m₂) :
    Mirrors start mode a (Emit.inLoop m₁) (Emit.inLoop m₂) :=
  h.within bracket_loop fun _ ha => ha

theorem inAutoescape {f : Bool} (h : Mirrors start mode f m₁ m₂) :
    Mirrors start mode a (Emit.inAutoescape f m₁) (Emit.inAutoescape f m₂) :=
  h.within (bracket_autoescape f) fun _ _ => rfl

end Mirrors
end

/-! ### Statement lists -/

theorem exec_inList_over {α : Type} {mode : Mode} {act : EmitM α} {s t : State} {b : Backdrop}
    {m : BlockMap} {r : Except CompileError α}
    (h : exec act (s.over (b.deeper mode)) = (r, t.over ((b.deeper mode).hold m))) :
    exec (inList (mode == .layout) act) (s.over b) = (r, t.over (b.hold m)) := by
  have hopen : { s.over b with level := (s.over b).level + 1,
                               blockLevel := (s.over b).blockLevel + (mode == .layout).toNat } =
      s.over (b.deeper mode) := rfl
  unfold inList
  rw [exec_within, hopen, h]
  simp [State.over, Backdrop.deeper, Backdrop.hold]

/-- A list that is not empty, before what is left at its end has been dealt with. -/
theorem exec_sequence {mode : Mode} {emit : Bool → EmitM (String × Bool)} {s t : State}
    {b : Backdrop} {m : BlockMap} {r : Except CompileError (String × Bool)} (hs : Calm s)
    (hreg : ∀ p, r = .ok p → p.2 = (mode == .layout))
    (h : exec (emit (mode == .layout)) (s.over (b.deeper mode)) =
      (r, t.over ((b.deeper mode).hold m))) :
    exec (sequence mode false emit) (s.over b) =
      (r.map (·.1), t.over (b.hold (if mode == .layout && b.blockLevel == 0 then
        m.segment ((r.map (·.1)).toOption.getD "") else m))) := by
  have hregistering : ((s.over b).extended || mode == .layout) = (mode == .layout) := by
    show (s.extended || _) = _
    rw [hs.extended, Bool.false_or]
  unfold sequence
  rw [if_neg Bool.false_ne_true, exec_bind, exec_get]
  dsimp only
  rw [hregistering, exec_bind, exec_inList_over h]
  cases r with
  | error e =>
    have hsegment : m.segment "" = m := if_pos rfl
    simp [Except.map, Except.toOption, hsegment]
  | ok p =>
    obtain ⟨code, registering⟩ := p
    have hcode : registering = (mode == .layout) := hreg _ rfl
    have hlevel : (t.over (b.hold m)).blockLevel = b.blockLevel := rfl
    dsimp only
    rw [exec_bind, exec_get]
    dsimp only
    rw [hcode, hlevel]
    by_cases hlast : (mode == .layout && b.blockLevel == 0) = true
    · rw [if_pos hlast, if_pos hlast, exec_bind, exec_segment]
      rfl
    · rw [if_neg hlast, if_neg hlast]
      rfl

/-- An inner list: what it leaves at its end is no segment. -/
theorem exec_sequence_over {mode : Mode} {emit : Bool → EmitM (String × Bool)} {s t : State}
    {b : Backdrop}
    {m : BlockMap} {r : Except CompileError (String × Bool)} (hs : Calm s) (hb : b.Inside mode)
    (hreg : ∀ p, r = .ok p → p.2 = (mode == .layout))
    (h : exec (emit (mode == .layout)) (s.over (b.deeper mode)) =
      (r, t.over ((b.deeper mode).hold m))) :
    exec (sequence mode false emit) (s.over b) = (r.map (·.1), t.over (b.hold m)) := by
  have hinner : (mode == .layout && b.blockLevel == 0) = false := by
    cases mode with
    | page => rfl
    | layout =>
      have : 0 < b.blockLevel := hb rfl
      simp
      omega
  rw [exec_sequence hs hreg h, hinner, if_neg Bool.false_ne_true]

/-- A layout that extends nothing is what its statements have registered. -/
theorem exec_layout {env : Env} {tree : Template} {s t : State} {r : Except CompileError String}
    (h : exec (list env .layout tree) s = (r, t)) (ht : t.extended = false) :
    exec (layout env tree) s = (r.map fun _ => t.blocks, t) := by
  unfold layout
  rw [exec_bind, h]
  cases r with
  | error e => rfl
  | ok code =>
    dsimp only
    rw [exec_bind, exec_get]
    dsimp only
    rw [ht]
    rfl

section
variable {env : Env} {start a : Bool} {mode : Mode}

theorem sequence_mirrors {isEmpty : Bool} {emit₁ emit₂ : Bool → EmitM (String × Bool)}
    (h : Mirrors start mode a (emit₁ (mode == .layout)) (emit₂ (mode == .layout)))
    (hreg : ∀ s p t, exec (emit₁ (mode == .layout)) s = (.ok p, t) → p.2 = (mode == .layout)) :
    Mirrors start mode a (sequence mode isEmpty emit₁) (sequence mode isEmpty emit₂) := by
  cases isEmpty with
  | true => exact (Silent.pure "").mirrors
  | false =>
    intro s hs ha
    obtain ⟨ws, r, t, hkept, hws, hm⟩ := h s hs ha
    have hr : ∀ p, r = .ok p → p.2 = (mode == .layout) := by
      rintro p rfl
      exact hreg _ p _ (hm _ (Backdrop.inside_deeper ⟨.empty, 0, 0, none⟩ mode)).1
    refine ⟨ws, r.map (·.1), t, hkept, hws, fun b hb => ⟨?_, ?_⟩⟩
    · exact exec_sequence_over hs hb hr (hm _ (b.inside_deeper mode)).1
    · exact exec_sequence_over hs hb hr (hm _ (b.inside_deeper mode)).2

/-- A statement that is not registered is emitted in place. -/
theorem place_inline {s : Stmt} {registering : Bool} (h : s.isBlock = false ∨ registering = false)
    (code : String) (emit : EmitM String) :
    place registering code s emit =
      emit >>= fun more => pure (code ++ more, registering || s.isExtending) := by
  unfold place
  split
  · simp [Stmt.isBlock] at h
  · rfl

theorem place_registering {x : Stmt} (hx : x.isExtending = false) {registering : Bool}
    {code : String} {emit : EmitM String} {s t : State} {p : String × Bool}
    (h : exec (place registering code x emit) s = (.ok p, t)) : p.2 = registering := by
  by_cases hblock : x.isBlock = false ∨ registering = false
  · rw [place_inline hblock] at h
    obtain ⟨more, u, -, hpure⟩ := exec_bind_eq_ok.1 h
    cases hpure
    simp [hx]
  · obtain ⟨hx, rfl⟩ : x.isBlock = true ∧ registering = true := by simpa using hblock
    obtain ⟨name, body, rfl⟩ := Stmt.eq_block hx
    rw [exec_place_block] at h
    cases h
    rfl

/-- No extension takes over a statement. -/
def Env.Unhooked (env : Env) : Prop := ∀ n, env.compiler.handled (·.statement n) = none

theorem step_unhandled {n : Node} (h : env.compiler.handled (·.statement n) = none)
    (registering : Bool) (code : String) (emit : EmitM String) :
    step env n registering code emit = inStmt n.pos (place registering code n.stmt emit) := by
  unfold step
  rw [h]

theorem step_handled {n : Node} {handled : String}
    (h : env.compiler.handled (·.statement n) = some handled)
    (registering : Bool) (code : String) (emit : EmitM String) :
    step env n registering code emit = inStmt n.pos (pure (code ++ handled, registering)) := by
  unfold step
  rw [h]

/-- Where nothing is extended, blocks are registered after a statement if they were before it. -/
theorem step_registering {n : Node} (hn : n.stmt.isExtending = false) {registering : Bool}
    {code : String} {emit : EmitM String} {s t : State} {p : String × Bool}
    (h : exec (step env n registering code emit) s = (.ok p, t)) : p.2 = registering := by
  cases hhandled : env.compiler.handled (·.statement n) with
  | some handled =>
    rw [step_handled hhandled] at h
    cases h
    rfl
  | none =>
    rw [step_unhandled hhandled] at h
    have hplace : (exec (place registering code n.stmt emit) { s with pos := n.pos }).1 = .ok p :=
      congrArg Prod.fst h
    exact place_registering hn (Prod.ext hplace rfl)

theorem nodes_registering : ∀ {ns : List Node}, (∀ n ∈ ns, n.stmt.isExtending = false) →
    ∀ {registering : Bool} {code : String} {s t : State} {p : String × Bool},
    exec (nodes env mode ns registering code) s = (.ok p, t) → p.2 = registering
  | [], _, _, _, _, _, _, h => by
    rw [nodes] at h
    cases h
    rfl
  | .mk x pos :: rest, hext, registering, code, s, t, p, h => by
    rw [List.forall_mem_cons] at hext
    rw [nodes] at h
    obtain ⟨⟨code', registering'⟩, u, hstep, hrest⟩ := exec_bind_eq_ok.1 h
    have hkept : registering' = registering := step_registering hext.1 hstep
    rw [nodes_registering hext.2 hrest, hkept]

/-! ### Prints -/

/-- A statement that is emitted in place, given what it emits. -/
theorem exec_step_inline {x : Stmt} {pos : Position}
    (hhook : env.compiler.handled (·.statement (.mk x pos)) = none)
    {registering : Bool} (hx : x.isBlock = false ∨ registering = false)
    (hext : x.isExtending = false)
    (code : String) {emit : EmitM String} (s : State) {t : State} {r : Except CompileError String}
    (h : exec emit { s with pos := pos } = (r, t)) :
    exec (step env (.mk x pos) registering code emit) s =
      (r.map fun more => (code ++ more, registering), { t with pos := s.pos }) := by
  rw [step_unhandled hhook]
  dsimp only [Node.pos, Node.stmt]
  rw [place_inline hx, hext, Bool.or_false, inStmt, exec_within, exec_bind, h]
  cases r <;> rfl

theorem exec_nodes_single {n : Node} {registering : Bool} {code : String} {s t : State}
    {r : Except CompileError (String × Bool)}
    (h : exec (step env n registering code (stmt env mode n.stmt)) s = (r, t)) :
    exec (nodes env mode [n] registering code) s = (r, t) := by
  obtain ⟨x, pos⟩ := n
  rw [nodes, exec_bind]
  dsimp only [Node.stmt] at h
  rw [h]
  cases r with
  | error e => rfl
  | ok p => obtain ⟨code, registering⟩ := p; rfl

/-- A print emits the same under a setting of its own, if that is the setting it is under. -/
theorem exec_pinned (mode : Mode) (hquiet : env.Quiet) (hhooks : env.Unhooked) (e : Expr)
    {s : State} (hs : Calm s) :
    ∃ r t, Kept s t ∧ ∀ b : Backdrop, b.Inside mode →
      exec (stmt env mode (.echo (some e))) (s.over b) = (r, t.over b) ∧
      exec (stmt env mode (.autoescape (some s.autoescape) [.mk (.echo (some e)) s.pos]))
      (s.over b) =
        (r, t.over b) := by
  obtain ⟨r, t, hkept, hecho⟩ := echo_silent hquiet (some e) s hs.currentBlock
  have hstmt : ∀ b, exec (stmt env mode (.echo (some e))) (s.over b) = (r, t.over b) := by
    intro b
    rw [stmt]
    exact hecho b
  refine ⟨r, t, hkept, fun b hb => ⟨hstmt b, ?_⟩⟩
  have hstep : ∀ b, exec (step env (.mk (.echo (some e)) s.pos) (mode == .layout) ""
      (stmt env mode (.echo (some e)))) (s.over b) =
        (r.map fun more => (more, mode == .layout), t.over b) := by
    intro b
    have hpos : { t.over b with pos := (s.over b).pos } = t.over b := by
      show { t.over b with pos := s.pos } = _
      rw [← hkept.pos]
      rfl
    refine (exec_step_inline (hhooks _) (.inl rfl) rfl "" (s.over b) (hstmt b)).trans ?_
    rw [hpos]
    simp only [String.empty_append]
  have hnodes := exec_nodes_single (n := .mk (.echo (some e)) s.pos) (hstep (b.deeper mode))
  have hlist : exec (sequence mode false fun r => nodes env mode [.mk (.echo (some e)) s.pos] r "")
      (s.over b) = (r, t.over b) := by
    have hreg : ∀ p, (r.map fun more => (more, mode == .layout)) = .ok p →
        p.2 = (mode == .layout) := by
      cases r <;> simp [Except.map]
    refine (exec_sequence_over hs hb hreg hnodes).trans ?_
    cases r <;> rfl
  rw [stmt, required, pure_bind, inAutoescape, exec_within]
  have hsame : { s.over b with autoescape := s.autoescape } = s.over b := rfl
  have hback : { t.over b with autoescape := s.autoescape } = t.over b := by
    rw [← hkept.autoescape]
    rfl
  rw [hsame]
  exact (congrArg (fun x => (x.1, { x.2 with autoescape := s.autoescape })) hlist).trans
    (congrArg _ hback)

theorem print_mirrors (hquiet : env.Quiet) (hhooks : env.Unhooked) (e : Expr) (pos : Position)
    (code : String) :
    Mirrors start mode a
      (step env (.mk (.echo (some e)) pos) (mode == .layout) code (stmt env mode (.echo (some e))))
      (step env (.mk (.autoescape (some a) [.mk (.echo (some e)) pos]) pos) (mode == .layout) code
        (stmt env mode (.autoescape (some a) [.mk (.echo (some e)) pos]))) := by
  rintro s hs rfl
  obtain ⟨r, t, hkept, hprint⟩ :=
    exec_pinned mode hquiet hhooks e (hs.enter (bracket_stmt pos))
  refine ⟨[], r.map fun more => (code ++ more, mode == .layout), { t with pos := s.pos },
    (bracket_stmt pos).kept hkept, .nil mode, fun b hb => ⟨?_, ?_⟩⟩
  · exact exec_step_inline (hhooks _) (.inl rfl) rfl code (s.over b) (hprint b hb).1
  · exact exec_step_inline (hhooks _) (.inl rfl) rfl code (s.over b) (hprint b hb).2

/-! ### Statements -/

/-- A statement that is emitted in place. -/
theorem step_mirrors (hhooks : env.Unhooked) {x y : Stmt}
    (hx : x.isBlock = false ∨ (mode == .layout) = false)
    (hy : y.isBlock = x.isBlock) (hext : y.isExtending = x.isExtending) (pos : Position)
    (code : String) (h : Mirrors start mode a (stmt env mode x) (stmt env mode y)) :
    Mirrors start mode a (step env (.mk x pos) (mode == .layout) code (stmt env mode x))
      (step env (.mk y pos) (mode == .layout) code (stmt env mode y)) := by
  rw [step_unhandled (hhooks _), step_unhandled (hhooks _)]
  dsimp only [Node.pos, Node.stmt]
  rw [place_inline hx, place_inline (hy ▸ hx), hext]
  exact (h.bind_pure fun more => (code ++ more, mode == .layout || x.isExtending)).inStmt pos

/-- A block that is registered. -/
theorem block_mirrors (name : String) {body : List Node}
    (hext : ∀ y ∈ Node.statements body, y.isExtending = false)
    (code : String) (emit₁ emit₂ : EmitM String) :
    Mirrors start .layout a (place true code (.block name body) emit₁)
      (place true code (.block name (Node.pin start .page start body)) emit₂) := by
  intro s hs _
  refine ⟨[.segment code, .define name body], .ok ("", true), s, .refl s, ⟨nofun, ?_⟩,
    fun b _ => ⟨?_, ?_⟩⟩
  · simpa [Write.Settled] using hext
  · exact exec_place_block name body code emit₁ _
  · exact exec_place_block name _ code emit₂ _

theorem loop_mirrors (hquiet : env.Quiet) (target : String) (key : Option String) (iterable : Expr)
    (guard : Option Expr) (branched : Bool) {body₁ body₂ : EmitM String}
    (h : Mirrors start mode a body₁ body₂) :
    Mirrors start mode a (loop env target key iterable guard branched body₁)
      (loop env target key iterable guard branched body₂) := by
  unfold loop turn
  refine Mirrors.inLoop (.get_bind (fun _ _ => rfl) (fun _ _ => rfl) fun s => ?_)
  refine loopStem_silent.mirrors.bind fun stem =>
    (expr_silent hquiet iterable).mirrors.bind fun source => ?_
  refine (clearLoop_silent _).mirrors.bind fun _ =>
    (noteBranch_silent _ _ _).mirrors.bind fun _ => ?_
  refine (expr?_silent hquiet guard).mirrors.bind fun guard => h.bind fun body => ?_
  exact (takeRecorded_silent _).mirrors.bind fun recorded => Silent.mirrors (.pure _)

theorem list_mirrors {ns ns' : List Node}
    (hext : ∀ y ∈ Node.statements ns, y.isExtending = false)
    (h : Mirrors start mode a (nodes env mode ns (mode == .layout) "")
      (nodes env mode ns' (mode == .layout) "")) :
    Mirrors start mode a (sequence mode ns.isEmpty fun r => nodes env mode ns r "")
      (sequence mode ns.isEmpty fun r => nodes env mode ns' r "") :=
  sequence_mirrors h fun _ _ _ hp =>
    nodes_registering (fun _ hn => hext _ (Node.stmt_mem_statements hn)) hp

mutual

/-- A statement emits what its pinned form does. -/
theorem stmt_mirrors (hquiet : env.Quiet) (hhooks : env.Unhooked) :
    ∀ (x : Stmt) (mode : Mode) (a : Bool),
    x.isBlock = false ∨ mode = .page → (∀ y ∈ x.statements, y.isExtending = false) →
    Mirrors start mode a (stmt env mode x) (stmt env mode (x.pin start mode a))
  | .text _, _, _, _, _ | .caseDefault, _, _, _, _ | .continueLoop, _, _, _, _
  | .breakLoop, _, _, _, _ => by
    rw [Stmt.pin, stmt]
    · exact (Silent.pure _).mirrors
    all_goals nofun
  | .echo e, _, _, _, _ => by
    rw [Stmt.pin, stmt]
    · exact (echo_silent hquiet e).mirrors
    all_goals nofun
  | .ifThen condition body elseBody, mode, a, _, hext => by
    simp only [Stmt.statements, List.forall_mem_cons, List.forall_mem_append] at hext
    rw [Stmt.pin, stmt, stmt, Node.isEmpty_pin]
    refine (required_related (silent_congruence hquiet) _ condition).mirrors.bind fun c => ?_
    refine (expr_silent hquiet c).mirrors.bind fun code => ?_
    refine (list_mirrors hext.2.1 (nodes_mirrors hquiet hhooks body mode a hext.2.1 "")).bind
      fun body => ?_
    exact (elseCode_mirrors hquiet hhooks elseBody mode a hext.2.2).bind_pure _
  | .elseIf e, _, _, _, _ | .caseOf e, _, _, _, _ | .evaluate e, _, _, _, _
  | .returning e, _, _, _, _ => by
    rw [Stmt.pin, stmt]
    · exact (operand_silent hquiet _ _ fun _ => .pure _).mirrors
    all_goals nofun
  | .switchOn subject cases, mode, a, _, hext => by
    simp only [Stmt.statements, List.forall_mem_cons] at hext
    rw [Stmt.pin, stmt, stmt, Node.isEmpty_pin]
    refine (required_related (silent_congruence hquiet) _ subject).mirrors.bind fun e => ?_
    refine (expr_silent hquiet e).mirrors.bind fun code => ?_
    exact (list_mirrors hext.2 (nodes_mirrors hquiet hhooks cases mode a hext.2 "")).bind_pure _
  | .forIn target key iterable guard body, mode, a, _, hext => by
    simp only [Stmt.statements, List.forall_mem_cons] at hext
    rw [Stmt.pin, stmt, stmt, Node.isEmpty_pin, Node.any_isForElse_pin]
    refine (required_related (silent_congruence hquiet) _ iterable).mirrors.bind fun e => ?_
    exact loop_mirrors hquiet target key e guard _
      (list_mirrors hext.2 (nodes_mirrors hquiet hhooks body mode a hext.2 ""))
  | .forElse, _, _, _, _ => by
    rw [Stmt.pin, stmt]
    · exact forElse_silent.mirrors
    all_goals nofun
  | .assign as, _, _, _, _ => by
    rw [Stmt.pin, stmt]
    · exact Silent.mirrors (assign_related (silent_congruence hquiet) as)
    all_goals nofun
  | .block name body, .layout, a, hblock, hext => by simp [Stmt.isBlock] at hblock
  | .block name body, .page, a, _, hext => by
    simp only [Stmt.statements, List.forall_mem_cons] at hext
    rw [Stmt.pin, stmt, stmt, Node.isEmpty_pin]
    exact list_mirrors hext.2 (nodes_mirrors hquiet hhooks body .page a hext.2 "")
  | .extending path, _, _, _, hext => by
    have := hext _ (Stmt.mem_statements _)
    cases this
  | .including path params, _, _, _, _ => by
    rw [Stmt.pin, stmt]
    · exact (includeView_silent hquiet path params).mirrors
    all_goals nofun
  | .macroDef name params body, mode, a, _, hext => by
    simp only [Stmt.statements, List.forall_mem_cons] at hext
    rw [Stmt.pin, stmt, stmt, Node.isEmpty_pin]
    refine (defineMacro_silent name).mirrors.bind fun _ => ?_
    refine (Silent.mirrors (parameters_related (silent_congruence hquiet) name 0 params)).bind
      fun given => ?_
    exact (list_mirrors hext.2 (nodes_mirrors hquiet hhooks body mode a hext.2 "")).bind_pure _
  | .autoescape enabled body, mode, a, _, hext => by
    simp only [Stmt.statements, List.forall_mem_cons] at hext
    rw [Stmt.pin, stmt, stmt, Node.isEmpty_pin]
    cases enabled with
    | none => exact (fail_silent _).mirrors.bind_of fun _ ⟨_, _, h⟩ => by cases h
    | some f =>
      rw [required, pure_bind, pure_bind]
      exact (list_mirrors hext.2 (nodes_mirrors hquiet hhooks body mode f hext.2 "")).inAutoescape
  | .cached key lifetime body, mode, a, _, hext => by
    simp only [Stmt.statements, List.forall_mem_cons] at hext
    rw [Stmt.pin, stmt, stmt, Node.isEmpty_pin]
    refine (required_related (silent_congruence hquiet) _ key).mirrors.bind fun e => ?_
    refine (expr_silent hquiet e).mirrors.bind fun code => ?_
    refine (expr?_silent hquiet lifetime).mirrors.bind fun life => ?_
    exact (list_mirrors hext.2 (nodes_mirrors hquiet hhooks body mode a hext.2 "")).bind_pure _
  | .unknown, _, _, _, _ => by
    rw [Stmt.pin, stmt]
    · exact (fail_silent _).mirrors
    all_goals nofun

theorem elseCode_mirrors (hquiet : env.Quiet) (hhooks : env.Unhooked) :
    ∀ (ns : Option (List Node)) (mode : Mode) (a : Bool),
    (∀ y ∈ Node.statementsOption ns, y.isExtending = false) →
    Mirrors start mode a (elseCode env mode ns) (elseCode env mode (Node.pinOption start mode a ns))
  | none, _, _, _ => by
    rw [Node.pinOption, elseCode]
    exact (Silent.pure _).mirrors
  | some ns, mode, a, hext => by
    rw [Node.pinOption, elseCode, elseCode, Node.isEmpty_pin]
    exact (list_mirrors hext (nodes_mirrors hquiet hhooks ns mode a hext "")).bind_pure _

theorem nodes_mirrors (hquiet : env.Quiet) (hhooks : env.Unhooked) :
    ∀ (ns : List Node) (mode : Mode) (a : Bool),
    (∀ y ∈ Node.statements ns, y.isExtending = false) → ∀ code,
    Mirrors start mode a (nodes env mode ns (mode == .layout) code)
      (nodes env mode (Node.pin start mode a ns) (mode == .layout) code)
  | [], mode, a, _, code => by
    rw [nodes, Node.pin, nodes]
    exact (Silent.pure _).mirrors
  | .mk x pos :: rest, mode, a, hext, code => by
    rw [Node.statements, List.forall_mem_append] at hext
    have hx : x.isExtending = false := hext.1 x x.mem_statements
    have hstep : Mirrors start mode a
        (step env (.mk x pos) (mode == .layout) code (stmt env mode x))
        (step env (.mk ((x.pin start mode a).pinned a pos) pos) (mode == .layout) code
          (stmt env mode ((x.pin start mode a).pinned a pos))) := by
      cases hprint : x.isPrint with
      | true =>
        obtain ⟨e, rfl⟩ := Stmt.eq_echo hprint
        have hpinned : ((Stmt.echo (some e)).pin start mode a).pinned a pos =
            .autoescape (some a) [.mk (.echo (some e)) pos] := if_pos hprint
        rw [hpinned]
        exact print_mirrors hquiet hhooks e pos code
      | false =>
        rw [Stmt.pinned_of_isPrint hprint]
        by_cases hblock : x.isBlock = false ∨ mode = .page
        · have hinline : x.isBlock = false ∨ (mode == .layout) = false :=
            hblock.imp_right fun hmode => by rw [hmode]; rfl
          exact step_mirrors hhooks hinline x.isBlock_pin x.isExtending_pin pos code
            (stmt_mirrors hquiet hhooks x mode a hblock hext.1)
        · obtain ⟨hx, hmode⟩ : x.isBlock = true ∧ mode ≠ .page := by simpa using hblock
          obtain ⟨name, body, rfl⟩ := Stmt.eq_block hx
          cases mode with
          | page => exact absurd rfl hmode
          | layout =>
            have hbody : ∀ y ∈ Node.statements body, y.isExtending = false := fun y hy =>
              hext.1 y (List.mem_cons_of_mem _ hy)
            rw [step_unhandled (hhooks _), step_unhandled (hhooks _)]
            exact (block_mirrors name hbody code _ _).inStmt pos
    rw [nodes, Node.pin, nodes]
    refine hstep.bind_of fun p hp => ?_
    obtain ⟨code, registering⟩ := p
    obtain ⟨s, t, hp⟩ := hp
    have hreg : registering = (mode == .layout) := step_registering (n := .mk x pos) hx hp
    rw [hreg]
    exact nodes_mirrors hquiet hhooks rest mode a hext.2 code

end

end

end Emit
end Stencil
