/-
# Emissions that agree

Two emissions of one tree may run on different disks and compile the templates
they name in different ways. If those nested compilations give the same results,
so do the emissions, and they fail alike. `Agrees` says this of two
computations; it is kept by every way of putting computations together, so it
holds of whole templates by one pass over the tree.

Which templates an emission names is bounded by a set `A` of links. A layout
that is extended brings its blocks along, so the links of registered and
inherited bodies have to be in the set too (`Alike`).

Key definitions: `Agrees`, `Emit.Alike`, `Emit.Similar`.
Key theorems: `Emit.list_agrees`, `Emit.page_agrees`, `Emit.layout_agrees`.
-/
import Stencil.Proofs.BlockOrder
import Stencil.Proofs.Exec
import Stencil.Proofs.Lockstep

namespace Stencil

/-- From the states `s` and `t` two computations give the same result and leave
related states, whether or not they fail. -/
def AgreesAt {σ α : Type} (R : σ → σ → Prop) (s t : σ)
    (m₁ m₂ : ExceptT CompileError (StateM σ) α) : Prop :=
  (exec m₁ s).1 = (exec m₂ t).1 ∧ R (exec m₁ s).2 (exec m₂ t).2

/-- Two computations agree from all related states. -/
def Agrees {σ α : Type} (R : σ → σ → Prop) (m₁ m₂ : ExceptT CompileError (StateM σ) α) : Prop :=
  ∀ s t, R s t → AgreesAt R s t m₁ m₂

section
variable {σ α β : Type} {R : σ → σ → Prop} {m₁ m₂ : ExceptT CompileError (StateM σ) α}

theorem AgreesAt.bind {s t : σ} {f₁ f₂ : α → ExceptT CompileError (StateM σ) β}
    (h : AgreesAt R s t m₁ m₂) (hf : ∀ a, Agrees R (f₁ a) (f₂ a)) :
    AgreesAt R s t (m₁ >>= f₁) (m₂ >>= f₂) := by
  unfold AgreesAt at h ⊢
  rw [exec_bind, exec_bind]
  rcases h₁ : exec m₁ s with ⟨r₁, s'⟩
  rcases h₂ : exec m₂ t with ⟨r₂, t'⟩
  rw [h₁, h₂] at h
  obtain ⟨hr, hR⟩ := h
  cases hr
  cases r₁ with
  | ok a => exact hf a s' t' hR
  | error e => exact ⟨rfl, hR⟩

theorem Agrees.pure (a : α) :
    Agrees R (Pure.pure a : ExceptT CompileError (StateM σ) α) (Pure.pure a) :=
  fun _ _ h => ⟨rfl, h⟩

theorem Agrees.throw (e : CompileError) :
    Agrees R (MonadExcept.throw e : ExceptT CompileError (StateM σ) α) (MonadExcept.throw e) :=
  fun _ _ h => ⟨rfl, h⟩

theorem Agrees.bind {f₁ f₂ : α → ExceptT CompileError (StateM σ) β}
    (h : Agrees R m₁ m₂) (hf : ∀ a, Agrees R (f₁ a) (f₂ a)) :
    Agrees R (m₁ >>= f₁) (m₂ >>= f₂) :=
  fun s t hR => (h s t hR).bind hf

theorem Agrees.map (f : α → β) (h : Agrees R m₁ m₂) : Agrees R (f <$> m₁) (f <$> m₂) := by
  intro s t hR
  unfold AgreesAt
  rw [exec_map, exec_map]
  exact ⟨congrArg (Except.map f) (h s t hR).1, (h s t hR).2⟩

theorem Agrees.get_bind {f₁ f₂ : σ → ExceptT CompileError (StateM σ) β}
    (h : ∀ s t, R s t → Agrees R (f₁ s) (f₂ t)) :
    Agrees R (get >>= f₁) (get >>= f₂) := by
  intro s t hR
  unfold AgreesAt
  rw [exec_bind, exec_bind]
  exact h s t hR s t hR

theorem Agrees.modify (f₁ f₂ : σ → σ) (h : ∀ s t, R s t → R (f₁ s) (f₂ t)) :
    Agrees R (modify f₁ : ExceptT CompileError (StateM σ) PUnit) (modify f₂) :=
  fun s t hR => ⟨rfl, h s t hR⟩

end

/-- The links of the bodies that are still nodes are in `A`. -/
def BlockMap.LinksIn (A : String × Mode → Prop) (m : BlockMap) : Prop :=
  ∀ k ns, (k, BlockBody.nodes ns) ∈ m.entries → ∀ l ∈ Node.links ns, A l

namespace BlockMap

variable {A : String × Mode → Prop} {m : BlockMap}

theorem LinksIn.append (h : m.LinksIn A) (code : String) : (m.append code).LinksIn A := by
  intro k ns hmem
  rcases mem_put hmem with hmem | ⟨-, hb⟩
  · exact h k ns hmem
  · cases hb

theorem LinksIn.define (h : m.LinksIn A) (name : String) {body : BlockBody}
    (hbody : ∀ ns, body = .nodes ns → ∀ l ∈ Node.links ns, A l) :
    (m.define name body).LinksIn A := by
  intro k ns hmem
  rcases mem_put hmem with hmem | ⟨-, hb⟩
  · exact h k ns hmem
  · exact hbody ns hb.symm

end BlockMap

namespace Emit

variable {J : Disk → Disk → Prop} {A : String × Mode → Prop}

/-- The states differ in their disks only, the disks are related by `J`, and the
bodies held in the states link within `A`. -/
def Alike (J : Disk → Disk → Prop) (A : String × Mode → Prop) (s t : State) : Prop :=
  ∃ d, t = { s with disk := d } ∧ J s.disk d ∧ (s.blocks.LinksIn A ∧ s.blocks.Numbered) ∧
    ∀ m, s.parent = some m → m.LinksIn A

theorem alike_initial (autoescape : Bool) {d e : Disk} (h : J d e) :
    Alike J A (.initial autoescape d) (.initial autoescape e) := by
  refine ⟨e, rfl, h, ⟨?_, .empty⟩, nofun⟩
  simp [BlockMap.LinksIn, State.initial, BlockMap.empty]

/-- The change neither reads the disk nor touches it or the registered bodies. -/
def Aside (f : State → State) : Prop :=
  ∀ s d, f { s with disk := d } = { f s with disk := d } ∧
    ((f s).disk = s.disk ∧ (f s).blocks = s.blocks ∧ (f s).parent = s.parent)

theorem Aside.alike {f : State → State} (h : Aside f) {s t : State} (hR : Alike J A s t) :
    Alike J A (f s) (f t) := by
  obtain ⟨d, rfl, r⟩ := hR
  obtain ⟨hf, hdisk, hblocks, hparent⟩ := h s d
  refine ⟨d, hf, ?_⟩
  rw [hdisk, hblocks, hparent]
  exact r

theorem modify_agrees {f : State → State} (h : Aside f) :
    Agrees (Alike J A) (modify f : EmitM PUnit) (modify f) := .modify f f fun _ _ => h.alike

theorem within_agrees {α : Type} {enter : State → State} {leave : State → State → State}
    {m₁ m₂ : EmitM α} (hin : ∀ s t, Alike J A s t → Alike J A (enter s) (enter t))
    (hout : ∀ s t s' t', Alike J A s t → Alike J A s' t' → Alike J A (leave s s') (leave t t'))
    (h : Agrees (Alike J A) m₁ m₂) :
    Agrees (Alike J A) (within enter leave m₁) (within enter leave m₂) := by
  intro s t hR
  have hb := h _ _ (hin s t hR)
  exact ⟨hb.1, hout _ _ _ _ hR hb.2⟩

section
variable {α : Type} {m₁ m₂ : EmitM α}

/-- Levels and settings that are put back afterwards. -/
theorem aside_agrees {enter : State → State} {leave : State → State → State} (hin : Aside enter)
    (hout : ∀ s, Aside (leave s)) (hdisk : ∀ s d, leave { s with disk := d } = leave s)
    (h : Agrees (Alike J A) m₁ m₂) :
    Agrees (Alike J A) (within enter leave m₁) (within enter leave m₂) := by
  refine within_agrees (fun _ _ => hin.alike) ?_ h
  rintro s _ s' t' ⟨d, rfl, -⟩ hR
  rw [hdisk s d]
  exact (hout s).alike hR

theorem inExpr_agrees (h : Agrees (Alike J A) m₁ m₂) : Agrees (Alike J A) (inExpr m₁) (inExpr m₂) :=
  aside_agrees (fun _ _ => ⟨rfl, rfl, rfl, rfl⟩) (fun _ _ _ => ⟨rfl, rfl, rfl, rfl⟩)
    (fun _ _ => rfl) h

theorem inLoop_agrees (h : Agrees (Alike J A) m₁ m₂) : Agrees (Alike J A) (inLoop m₁) (inLoop m₂) :=
  aside_agrees (fun _ _ => ⟨rfl, rfl, rfl, rfl⟩) (fun _ _ _ => ⟨rfl, rfl, rfl, rfl⟩)
    (fun _ _ => rfl) h

theorem inList_agrees (counted : Bool) (h : Agrees (Alike J A) m₁ m₂) :
    Agrees (Alike J A) (inList counted m₁) (inList counted m₂) :=
  aside_agrees (fun _ _ => ⟨rfl, rfl, rfl, rfl⟩) (fun _ _ _ => ⟨rfl, rfl, rfl, rfl⟩)
    (fun _ _ => rfl) h

theorem inStmt_agrees (pos : Position) (h : Agrees (Alike J A) m₁ m₂) :
    Agrees (Alike J A) (inStmt pos m₁) (inStmt pos m₂) :=
  aside_agrees (fun _ _ => ⟨rfl, rfl, rfl, rfl⟩) (fun _ _ _ => ⟨rfl, rfl, rfl, rfl⟩)
    (fun _ _ => rfl) h

theorem inAutoescape_agrees (enabled : Bool) (h : Agrees (Alike J A) m₁ m₂) :
    Agrees (Alike J A) (inAutoescape enabled m₁) (inAutoescape enabled m₂) :=
  aside_agrees (fun _ _ => ⟨rfl, rfl, rfl, rfl⟩) (fun _ _ _ => ⟨rfl, rfl, rfl, rfl⟩)
    (fun _ _ => rfl) h

theorem outsideBlock_agrees (h : Agrees (Alike J A) m₁ m₂) :
    Agrees (Alike J A) (outsideBlock m₁) (outsideBlock m₂) :=
  aside_agrees (fun _ _ => ⟨rfl, rfl, rfl, rfl⟩) (fun _ _ _ => ⟨rfl, rfl, rfl, rfl⟩)
    (fun _ _ => rfl) h

end

/-- The environments emit alike: extensions and registries answer the same, and
what they do with the parent's block and with templates in `A` agrees. -/
structure Similar (J : Disk → Disk → Prop) (A : String × Mode → Prop) (env₁ env₂ : Env) : Prop where
  source : env₁.source = env₂.source
  expression : ∀ e, env₁.compiler.handled (·.expression e) = env₂.compiler.handled (·.expression e)
  function : ∀ name arguments raw, env₁.compiler.handled (·.function name arguments raw) =
    env₂.compiler.handled (·.function name arguments raw)
  filter : ∀ name arguments raw, env₁.compiler.handled (·.filter name arguments raw) =
    env₂.compiler.handled (·.filter name arguments raw)
  statement : ∀ n, env₁.compiler.handled (·.statement n) = env₂.compiler.handled (·.statement n)
  functions : env₁.compiler.functions = env₂.compiler.functions
  filters : env₁.compiler.filters = env₂.compiler.filters
  services : env₁.compiler.services = env₂.compiler.services
  stem : env₁.compiler.stemFor env₁.source = env₂.compiler.stemFor env₂.source
  super : Agrees (Alike J A) env₁.superBlock env₂.superBlock
  nested : ∀ path mode, A (path, mode) → ∀ d e, J d e →
    AgreesAt J d e (env₁.nested (env₁.compiler.viewPath d path) mode)
      (env₂.nested (env₂.compiler.viewPath e path) mode) ∧
    ∀ output, (exec (env₁.nested (env₁.compiler.viewPath d path) mode) d).1 = .ok output →
      output.toBlocks.LinksIn A

variable {env₁ env₂ : Env} (S : Similar J A env₁ env₂)
include S

theorem fail_agrees {α : Type} (cause : Location → CompileError) :
    Agrees (Alike J A) (fail env₁ cause : EmitM α) (fail env₂ cause) := by
  rintro s _ ⟨d, rfl, r⟩
  unfold AgreesAt
  rw [exec_fail, exec_fail, S.source]
  exact ⟨rfl, d, rfl, r⟩

theorem loopStem_agrees : Agrees (Alike J A) (loopStem env₁) (loopStem env₂) := by
  unfold loopStem
  refine Agrees.get_bind ?_
  rintro s _ ⟨d, rfl, r⟩
  dsimp only
  cases s.stem with
  | some stem => exact .pure stem
  | none =>
    simp only [S.stem]
    split
    · exact Agrees.bind (modify_agrees fun _ _ => ⟨rfl, rfl, rfl, rfl⟩) fun _ => .pure _
    · exact .throw _

theorem identifier_agrees (name : String) :
    Agrees (Alike J A) (identifier env₁ name) (identifier env₂ name) := by
  unfold identifier
  refine Agrees.get_bind ?_
  rintro s _ ⟨d, rfl, r⟩
  dsimp only
  rw [S.services]
  split
  · refine Agrees.bind (modify_agrees fun _ _ => ⟨rfl, rfl, rfl, rfl⟩) fun _ => ?_
    exact (loopStem_agrees S).bind fun _ => .pure _
  · split <;> exact .pure _

omit S in
theorem Similar.congruence (S : Similar J A env₁ env₂) :
    Congruence env₁ env₂ fun _ => Agrees (Alike J A) where
  pure := .pure
  throw := .throw
  bind := .bind
  inExpr := inExpr_agrees
  fail := fail_agrees S
  identifier := identifier_agrees S
  super := S.super
  expression := S.expression
  function := S.function
  filter := S.filter
  functions := S.functions
  filters := S.filters

omit S

/-! ### Statements -/

section
variable (S : Similar J A env₁ env₂)
include S

theorem defineMacro_agrees (name : String) :
    Agrees (Alike J A) (defineMacro env₁ name) (defineMacro env₂ name) := by
  unfold defineMacro
  refine Agrees.get_bind ?_
  rintro s _ ⟨d, rfl, r⟩
  dsimp only
  split
  · exact fail_agrees S _
  · exact modify_agrees fun _ _ => ⟨rfl, rfl, rfl, rfl⟩

theorem extendView_agrees (path : Option Expr)
    (h : ∀ p, path = some (.str p) → A (p, .layout)) :
    Agrees (Alike J A) (extendView env₁ path) (extendView env₂ path) := by
  unfold extendView
  split
  · rename_i p
    rintro s _ ⟨d, rfl, hJ, hb, hp⟩
    obtain ⟨⟨hres, hdisks⟩, hlinks⟩ := S.nested p .layout (h p rfl) s.disk d hJ
    unfold AgreesAt
    simp only [exec_bind, exec_get, exec_onDisk]
    rw [← hres]
    rcases hout :
      (exec (env₁.nested (env₁.compiler.viewPath s.disk p) .layout) s.disk).1 with e | out
    · exact ⟨rfl, _, rfl, hdisks, hb, hp⟩
    · refine ⟨rfl, _, rfl, hdisks, hb, ?_⟩
      rintro m ⟨⟩
      exact hlinks out hout
  · exact fail_agrees S _

theorem included_agrees (path : String) (h : A (path, .page)) :
    Agrees (Alike J A) (included env₁ path) (included env₂ path) := by
  rintro s _ ⟨d, rfl, hJ, hb, hp⟩
  obtain ⟨⟨hres, hdisks⟩, -⟩ := S.nested path .page h s.disk d hJ
  unfold AgreesAt included
  simp only [exec_bind, exec_get, exec_onDisk]
  rw [← hres]
  rcases (exec (env₁.nested (env₁.compiler.viewPath s.disk path) .page) s.disk).1 with e | out
  · exact ⟨rfl, _, rfl, hdisks, hb, hp⟩
  · exact ⟨rfl, _, rfl, hdisks, hb, hp⟩

end

theorem forElse_agrees : Agrees (Alike J A) forElse forElse := by
  unfold forElse
  refine Agrees.get_bind ?_
  rintro s _ ⟨d, rfl, r⟩
  dsimp only
  split <;> exact .pure _

theorem segment_agrees (code : String) : Agrees (Alike J A) (segment code) (segment code) := by
  unfold segment
  split
  · exact .pure _
  · refine Agrees.modify _ _ ?_
    rintro s _ ⟨d, rfl, hJ, hb, hp⟩
    exact ⟨d, rfl, hJ, ⟨hb.1.append code, hb.2.append code⟩, hp⟩

theorem register_agrees (name : String) {body : List Node} (h : ∀ l ∈ Node.links body, A l) :
    Agrees (Alike J A) (register name body) (register name body) := by
  refine Agrees.modify _ _ ?_
  rintro s _ ⟨d, rfl, hJ, hb, hp⟩
  refine ⟨d, rfl, hJ, ⟨hb.1.define name ?_, hb.2.define name _⟩, hp⟩
  rintro _ ⟨⟩
  exact h

theorem clearLoop_agrees (depth : Nat) :
    Agrees (Alike J A) (modify (·.clearLoop depth)) (modify (·.clearLoop depth)) :=
  modify_agrees fun _ _ => ⟨rfl, rfl, rfl, rfl⟩

theorem noteBranch_agrees (depth : Nat) (branch : Branch) (branched : Bool) :
    Agrees (Alike J A) (noteBranch depth branch branched) (noteBranch depth branch branched) := by
  unfold noteBranch
  split
  · exact modify_agrees fun _ _ => ⟨rfl, rfl, rfl, rfl⟩
  · exact .pure _

theorem takeRecorded_agrees (depth : Nat) :
    Agrees (Alike J A) (takeRecorded depth) (takeRecorded depth) := by
  refine Agrees.get_bind ?_
  rintro s _ ⟨d, rfl, r⟩
  exact (clearLoop_agrees _).bind fun _ => .pure _

/-- The link of the statement, if it has one, is in `A`. -/
def LinkIn (A : String × Mode → Prop) (x : Stmt) : Prop := ∀ l, x.link? = some l → A l

theorem linkIn_of_links {xs : List Stmt} (h : ∀ l ∈ xs.filterMap Stmt.link?, A l) :
    ∀ x ∈ xs, LinkIn A x :=
  fun x hx l hl => h l (List.mem_filterMap.2 ⟨x, hx, hl⟩)

theorem links_of_linkIn {ns : List Node} (h : ∀ x ∈ Node.statements ns, LinkIn A x) :
    ∀ l ∈ Node.links ns, A l := by
  intro l hl
  obtain ⟨x, hx, hlink⟩ := List.mem_filterMap.1 hl
  exact h x hx l hlink

/-- Agreement goes through all that statements do. -/
theorem Similar.lockstep (S : Similar J A env₁ env₂) :
    Lockstep (fun _ => True) (LinkIn A) env₁ env₂ fun _ => Agrees (Alike J A) where
  toCongruenceOn := S.congruence.on
  uses _ _ _ _ _ := trivial
  statement := S.statement
  look h := by
    refine Agrees.get_bind ?_
    rintro s _ ⟨d, rfl, r⟩
    exact h _ _ ⟨rfl, rfl, rfl, rfl⟩
  loopStem := loopStem_agrees S
  clearLoop := clearLoop_agrees
  noteBranch := noteBranch_agrees
  takeRecorded := takeRecorded_agrees
  forElse := forElse_agrees
  defineMacro := defineMacro_agrees S
  segment := segment_agrees
  register name body h := by
    rw [Stmt.statements, List.forall_mem_cons] at h
    exact register_agrees name (links_of_linkIn h.2)
  extendView path h := by
    refine extendView_agrees S path ?_
    rintro p rfl
    exact h _ rfl
  included path h := included_agrees S path (h _ rfl)
  inLoop := inLoop_agrees
  inList counted := inList_agrees counted
  inStmt pos := inStmt_agrees pos
  inAutoescape enabled := inAutoescape_agrees enabled

/-- Emitting a list agrees if its links are in the set. -/
theorem list_agrees (S : Similar J A env₁ env₂) (mode : Mode) (ns : List Node)
    (h : ∀ l ∈ Node.links ns, A l) :
    Agrees (Alike J A) (list env₁ mode ns) (list env₂ mode ns) :=
  list_lockstep S.lockstep mode ns (linkIn_of_links h)

/-! ### Whole templates -/

theorem superCode_agrees (S : Similar J A env₁ env₂) :
    Agrees (Alike J A) (superCode env₁) (superCode env₂) := by
  refine Agrees.get_bind ?_
  rintro s _ ⟨d, rfl, -, -, hp⟩
  dsimp only
  split
  · exact .pure _
  · rename_i body hbody
    have quoted : ∀ code : String, Agrees (Alike J A)
        (do if (← get).exprLevel == 1 then return code else return "'" ++ Text.slashed code ++ "'")
        (do if (← get).exprLevel == 1 then return code
            else return "'" ++ Text.slashed code ++ "'") := by
      intro code
      refine Agrees.get_bind ?_
      rintro s _ ⟨d, rfl, r⟩
      dsimp only
      split <;> exact .pure _
    split
    · exact (Agrees.pure _).bind quoted
    · rename_i ns
      refine (outsideBlock_agrees (list_agrees S .page ns ?_)).bind quoted
      obtain ⟨name, -, hname⟩ := Option.bind_eq_some_iff.1 hbody
      obtain ⟨m, hm, hnamed⟩ := Option.bind_eq_some_iff.1 hname
      exact hp m hm _ ns (BlockMap.mem_of_named? hnamed)

/-- The body emitted for an entry is the entry's own, or one the template has
registered. -/
theorem override_cases (own : BlockMap) (key : BlockKey) (inherited : BlockBody) :
    override own key inherited = (none, inherited) ∨
      ∃ name, override own key inherited = (some name, (override own key inherited).2) ∧
        own.named? name = some (override own key inherited).2 := by
  cases key with
  | position p => exact .inl rfl
  | name n =>
    cases h : own.named? n with
    | none => exact .inl (by simp [override, h])
    | some body => exact .inr ⟨n, by simp [override, h], by simp [override, h]⟩

theorem bodyCode_agrees (S : Similar J A env₁ env₂) (body : BlockBody)
    (h : ∀ ns, body = .nodes ns → ∀ l ∈ Node.links ns, A l) :
    Agrees (Alike J A) (bodyCode env₁ body) (bodyCode env₂ body) := by
  cases body with
  | code code => exact .pure _
  | nodes ns => exact list_agrees S .page ns (h ns rfl)

theorem mergeEntries_agrees (S : Similar J A env₁ env₂) {own : BlockMap} (hown : own.LinksIn A) :
    ∀ entries : List (BlockKey × BlockBody),
      (∀ k ns, (k, BlockBody.nodes ns) ∈ entries → ∀ l ∈ Node.links ns, A l) →
      Agrees (Alike J A) (mergeEntries env₁ own entries) (mergeEntries env₂ own entries)
  | [], _ => by rw [mergeEntries, mergeEntries]; exact .pure _
  | (key, inherited) :: rest, h => by
    rw [mergeEntries, mergeEntries]
    dsimp only
    refine Agrees.bind (modify_agrees fun _ _ => ⟨rfl, rfl, rfl, rfl⟩) fun _ => ?_
    refine (bodyCode_agrees S _ ?_).bind fun _ => ?_
    · intro ns hns
      rcases override_cases own key inherited with ho | ⟨n, ho, hn⟩
      · exact h key ns (by rw [ho] at hns; exact hns ▸ List.mem_cons_self)
      · exact hown _ ns (BlockMap.mem_of_named? (hns ▸ hn))
    · refine (mergeEntries_agrees S hown rest ?_).bind fun _ => .pure _
      exact fun k ns hmem => h k ns (List.mem_cons_of_mem _ hmem)

theorem merge_agrees (S : Similar J A env₁ env₂) :
    Agrees (Alike J A) (merge env₁) (merge env₂) := by
  refine Agrees.get_bind ?_
  rintro s _ ⟨d, rfl, -, hb, hp⟩
  refine within_agrees ?_ ?_ (mergeEntries_agrees S hb.1 _ ?_)
  · rintro s _ ⟨d, rfl, hJ, -, hp⟩
    exact ⟨d, rfl, hJ, ⟨by simp [BlockMap.LinksIn, BlockMap.empty], .empty⟩, hp⟩
  · rintro _ _ s _ - ⟨d, rfl, r⟩
    exact ⟨d, rfl, r⟩
  · intro k ns hmem
    cases hs : s.parent with
    | none => simp [hs, BlockMap.empty] at hmem
    | some m => exact hp m hs k ns (by simpa [hs] using hmem)

theorem page_agrees (S : Similar J A env₁ env₂) (t : Template) (h : ∀ l ∈ Node.links t, A l) :
    Agrees (Alike J A) (page env₁ t) (page env₂ t) := by
  refine (list_agrees S .page t h).bind fun code => Agrees.get_bind ?_
  rintro s _ ⟨d, rfl, r⟩
  dsimp only
  split
  · exact (merge_agrees S).bind fun _ => .pure _
  · exact .pure _

theorem layout_agrees (S : Similar J A env₁ env₂) (t : Template) (h : ∀ l ∈ Node.links t, A l) :
    Agrees (Alike J A) (layout env₁ t) (layout env₂ t) := by
  refine (list_agrees S .layout t h).bind fun _ => Agrees.get_bind ?_
  rintro s _ ⟨d, rfl, r⟩
  dsimp only
  split
  · exact (merge_agrees S).bind fun _ => .pure _
  · refine Agrees.get_bind ?_
    rintro s _ ⟨d, rfl, r⟩
    exact .pure _

/-- Where bodies that are inherited are emitted alike, so is all that may call them. -/
theorem Similar.outer {c₁ c₂ : Compiler} {source : String}
    {nested₁ nested₂ : String → Mode → DiskM Output}
    (S : Similar J A (.inner c₁ source nested₁) (.inner c₂ source nested₂)) :
    Similar J A (.outer c₁ source nested₁) (.outer c₂ source nested₂) :=
  ⟨S.source, S.expression, S.function, S.filter, S.statement, S.functions, S.filters,
    S.services, S.stem,
    superCode_agrees S, S.nested⟩

/-- How other templates are compiled does not matter where none is named. -/
theorem similar_of_no_links (c : Compiler) (source : String)
    (nested₁ nested₂ : String → Mode → DiskM Output) :
    Similar Eq (fun _ => False) (.outer c source nested₁) (.outer c source nested₂) :=
  .outer ⟨rfl, fun _ => rfl, fun _ _ _ => rfl, fun _ _ _ => rfl, fun _ => rfl, rfl, rfl, rfl,
    rfl, .pure _,
    fun _ _ h => h.elim⟩

/-- Merged entries hold code only. -/
theorem blocksOf_linksIn (A : String × Mode → Prop) (entries : List (BlockKey × String)) :
    (blocksOf entries).LinksIn A :=
  blocksOf_induction (by simp [BlockMap.LinksIn, BlockMap.empty])
    (fun _ name _ h => h.define name nofun)
    (fun _ code h => h.append code) entries

/-- A layout is what the emission has registered, or it is merged. -/
theorem layout_cases {env : Env} {t : Template} {s s' : State} {m : BlockMap}
    (h : exec (layout env t) s = (.ok m, s')) :
    m = s'.blocks ∨ ∃ entries, m = blocksOf entries := by
  unfold layout at h
  rw [exec_bind] at h
  split at h
  · rename_i s₁ _
    rw [exec_bind, exec_get] at h
    dsimp only at h
    split at h
    · rw [exec_bind] at h
      split at h
      · rw [exec_pure] at h
        exact .inr ⟨_, by simpa using (congrArg (·.1) h).symm⟩
      · simp at h
    · rw [exec_bind, exec_get] at h
      simp only [exec_pure, Prod.mk.injEq, Except.ok.injEq] at h
      exact .inl (by rw [← h.1, ← h.2])
  · simp at h

end Emit
end Stencil
