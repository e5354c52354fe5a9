/-
# Only the blocks of a template matter where it is merged

A template that extends a layout is merged from the blocks it registers. The rest of it is
emitted too, and what that leaves behind in the state is there when the blocks are: the
macros it has defined, and the loop stem if a loop has asked for it. None of this shows in
the code. A macro may be defined twice, and then there is no code; and the loop stem
is the same whenever it is asked for.

Two runs that both succeed are compared (`Concurs`). They are runs of the same tree, from
states that differ in this much.

Key definitions: `Emit.Near`, `Emit.Concurs`.
Key theorems: `Emit.concurs_lockstep`, `Emit.mergeEntries_concurs`,
`Compiler.compileSource_extending_congr`.
-/
import Stencil.Proofs.Lockstep
import Stencil.Proofs.Registered

namespace Stencil
namespace Emit

/-- The state with other macros defined and another loop stem known. -/
def State.noting (s : State) (macros : List String) (known : Option String) : State :=
  { s with macros := macros, stem := known }

/-- The states differ only in the macros that are defined and in whether the loop stem, which
is `stem`, is known. -/
structure Near (stem : String) (s t : State) : Prop where
  frame : t = s.noting t.macros t.stem
  left : ∀ x, s.stem = some x → x = stem
  right : ∀ x, t.stem = some x → x = stem

/-- If both emissions succeed, from states that are near, they give the same and leave
states that are near. -/
def Concurs {α : Type} (stem : String) (m₁ m₂ : EmitM α) : Prop :=
  ∀ s t a b s' t', Near stem s t → exec m₁ s = (.ok a, s') → exec m₂ t = (.ok b, t') →
    a = b ∧ Near stem s' t'

namespace Concurs

variable {α β : Type} {stem : String} {m m₁ m₂ : EmitM α}

theorem pure (a : α) : Concurs stem (Pure.pure a : EmitM α) (Pure.pure a) := by
  rintro s t _ _ _ _ h ⟨⟩ ⟨⟩
  exact ⟨rfl, h⟩

/-- One of the emissions never succeeds. -/
theorem never (h : ∀ s a t, exec m₁ s ≠ (.ok a, t)) : Concurs stem m₁ m₂ :=
  fun s _ a _ s' _ _ hrun => absurd hrun (h s a s')

theorem throw (e : CompileError) : Concurs stem (MonadExcept.throw e : EmitM α) m₂ :=
  .never fun s a t h => by
    have hrun : ((.error e, s) : Except CompileError α × State) = (.ok a, t) := h
    cases hrun

theorem fail (env : Env) (cause : Location → CompileError) :
    Concurs stem (Emit.fail env cause : EmitM α) m₂ :=
  .never fun s a t h => by
    rw [exec_fail] at h
    cases h

theorem bind {f₁ f₂ : α → EmitM β} (h : Concurs stem m₁ m₂) (hf : ∀ a, Concurs stem (f₁ a) (f₂ a)) :
    Concurs stem (m₁ >>= f₁) (m₂ >>= f₂) := by
  intro s t b b' s' t' hst h₁ h₂
  obtain ⟨a, u, hm₁, hf₁⟩ := exec_bind_eq_ok.1 h₁
  obtain ⟨a', v, hm₂, hf₂⟩ := exec_bind_eq_ok.1 h₂
  obtain ⟨rfl, huv⟩ := h s t a a' u v hst hm₁ hm₂
  exact hf a u v b b' s' t' huv hf₁ hf₂

theorem get_bind {f₁ f₂ : State → EmitM α} (h : ∀ s t, Near stem s t → Concurs stem (f₁ s) (f₂ t)) :
    Concurs stem (get >>= f₁) (get >>= f₂) := by
  intro s t a b s' t' hst h₁ h₂
  rw [exec_bind, exec_get] at h₁ h₂
  exact h s t hst s t a b s' t' hst h₁ h₂

/-- Changes that ask for neither macros nor the loop stem, and leave them alone. -/
theorem within {enter : State → State} {leave : State → State → State} (h : Concurs stem m₁ m₂)
    (hin : ∀ s macros known, enter (s.noting macros known) = (enter s).noting macros known)
    (hout : ∀ s t macros known macros' known',
      leave (s.noting macros known) (t.noting macros' known') = (leave s t).noting macros' known') :
    Concurs stem (Emit.within enter leave m₁) (Emit.within enter leave m₂) := by
  intro s t a b s' t' hst h₁ h₂
  rw [exec_within, Prod.mk.injEq] at h₁ h₂
  obtain ⟨ha, rfl⟩ := h₁
  obtain ⟨hb, rfl⟩ := h₂
  have henter : Near stem (enter s) (enter t) := by
    have hs := congrArg State.stem (hin s s.macros s.stem)
    rw [hst.frame, hin]
    exact ⟨rfl, fun x hx => hst.left x (hs.symm.trans hx), hst.right⟩
  have hleave : ∀ s' t', Near stem s' t' → Near stem (leave s s') (leave t t') := by
    intro s' t' h'
    have hs := congrArg State.stem (hout s s' s.macros s.stem s'.macros s'.stem)
    rw [hst.frame, h'.frame, hout]
    exact ⟨rfl, fun x hx => h'.left x (hs.symm.trans hx), h'.right⟩
  obtain ⟨hab, hnear⟩ := h _ _ a b _ _ henter (Prod.ext ha rfl) (Prod.ext hb rfl)
  exact ⟨hab, hleave _ _ hnear⟩

/-- An emission that asks for neither macros nor the loop stem, and leaves them alone. -/
theorem of_blind (h : ∀ s macros known,
    exec m (s.noting macros known) = ((exec m s).1, (exec m s).2.noting macros known)) :
    Concurs stem m m := by
  intro s t a b s' t' hst h₁ h₂
  have hkept : (exec m s).2.stem = s.stem := congrArg (fun run => run.2.stem) (h s s.macros s.stem)
  rw [h₁] at hkept
  rw [hst.frame, h s, h₁, Prod.mk.injEq] at h₂
  obtain ⟨hab, rfl⟩ := h₂
  exact ⟨Except.ok.inj hab, rfl, fun x hx => hst.left x (hkept ▸ hx), hst.right⟩

end Concurs

theorem Near.sameOutlook {stem : String} {s t : State} (h : Near stem s t) : SameOutlook s t := by
  rw [h.frame]
  exact ⟨rfl, rfl, rfl, rfl⟩

section
variable {env : Env}

theorem loopStem_ok {s t : State} {code : String}
    (hs : ∀ x, s.stem = some x → x = env.compiler.stemFor env.source)
    (h : exec (loopStem env) s = (.ok code, t)) :
    code = env.compiler.stemFor env.source ∧
      t = { s with stem := some (env.compiler.stemFor env.source) } := by
  unfold loopStem at h
  rw [exec_bind, exec_get] at h
  dsimp only at h
  split at h
  · rename_i x hx
    cases h
    refine ⟨hs _ hx, ?_⟩
    rw [← hs _ hx, ← hx]
  · split at h
    · cases h
      exact ⟨rfl, rfl⟩
    · cases h

theorem loopStem_concurs :
    Concurs (env.compiler.stemFor env.source) (loopStem env) (loopStem env) := by
  intro s t a b s' t' hst h₁ h₂
  obtain ⟨rfl, rfl⟩ := loopStem_ok hst.left h₁
  obtain ⟨rfl, rfl⟩ := loopStem_ok hst.right h₂
  refine ⟨rfl, ?_, fun x hx => (Option.some.inj hx).symm, fun x hx => (Option.some.inj hx).symm⟩
  rw [hst.frame]
  rfl

theorem identifier_concurs (name : String) :
    Concurs (env.compiler.stemFor env.source) (identifier env name) (identifier env name) := by
  refine .get_bind fun s t hst => ?_
  rw [hst.sameOutlook.loopLevel]
  dsimp only
  split
  · exact (Concurs.of_blind fun _ _ _ => rfl).bind fun _ => loopStem_concurs.bind fun _ => .pure _
  · split <;> exact .pure _

theorem defineMacro_concurs (name : String) {stem : String} :
    Concurs stem (defineMacro env name) (defineMacro env name) := by
  have hok : ∀ {s t : State} {u : PUnit}, exec (defineMacro env name) s = (.ok u, t) →
      t = { s with macros := name :: s.macros } := by
    intro s t u h
    unfold defineMacro at h
    rw [exec_bind, exec_get] at h
    dsimp only at h
    split at h
    · cases h
    · cases h
      rfl
  intro s t a b s' t' hst h₁ h₂
  rw [hok h₁, hok h₂]
  refine ⟨rfl, ?_, hst.left, hst.right⟩
  rw [hst.frame]
  rfl

theorem forElse_concurs {stem : String} : Concurs stem forElse forElse := by
  refine .get_bind fun s t hst => ?_
  rw [hst.frame]
  dsimp only [State.noting]
  split <;> exact .pure _

theorem segment_concurs {stem : String} (code : String) :
    Concurs stem (segment code) (segment code) := by
  refine .of_blind fun s macros known => ?_
  rw [exec_segment, exec_segment]
  rfl

theorem noteBranch_concurs {stem : String} (depth : Nat) (branch : Branch) (branched : Bool) :
    Concurs stem (noteBranch depth branch branched) (noteBranch depth branch branched) := by
  cases branched with
  | true => exact .of_blind fun _ _ _ => rfl
  | false => exact .pure _

/-- The template that is extended compiles to the same. -/
theorem extendView_concurs {stem : String} (path : Option Expr) :
    Concurs stem (extendView env path) (extendView env path) := by
  unfold extendView
  split
  · refine .of_blind fun s macros known => ?_
    have hdisk : (s.noting macros known).disk = s.disk := rfl
    simp only [exec_bind, exec_get, exec_onDisk, hdisk]
    rcases exec (env.nested (env.compiler.viewPath s.disk _) .layout) s.disk with ⟨r, d⟩
    cases r <;> rfl
  · exact .fail _ _

theorem included_concurs {stem : String} (path : String) :
    Concurs stem (included env path) (included env path) := by
  refine .of_blind fun s macros known => ?_
  have hdisk : (s.noting macros known).disk = s.disk := rfl
  unfold included
  simp only [exec_bind, exec_get, exec_onDisk, hdisk]
  rcases exec (env.nested (env.compiler.viewPath s.disk path) .page) s.disk with ⟨r, d⟩
  cases r <;> rfl

/-- Any tree emits the same from states that are near, if calls of the parent's block do. -/
theorem concurs_lockstep
    (hsuper : Concurs (env.compiler.stemFor env.source) env.superBlock env.superBlock) :
    Lockstep (fun _ => True) (fun _ => True) env env fun _ =>
      Concurs (env.compiler.stemFor env.source) where
  pure := .pure
  throw e := .throw e
  bind := .bind
  inExpr h := h.within (fun _ _ _ => rfl) fun _ _ _ _ _ _ => rfl
  fail cause := .fail env cause
  super := hsuper
  expression _ := rfl
  function _ _ _ := rfl
  filter _ _ _ := rfl
  identifier name _ := identifier_concurs name
  functions _ _ := rfl
  filters _ _ := rfl
  uses _ _ _ _ _ := trivial
  statement _ := rfl
  look h := .get_bind fun s t hst => h s t hst.sameOutlook
  loopStem := loopStem_concurs
  clearLoop _ := .of_blind fun _ _ _ => rfl
  noteBranch := noteBranch_concurs
  takeRecorded _ := .of_blind fun _ _ _ => rfl
  forElse := forElse_concurs
  defineMacro name := defineMacro_concurs name
  segment := segment_concurs
  register _ _ _ := .of_blind fun _ _ _ => rfl
  extendView path _ := extendView_concurs path
  included path _ := included_concurs path
  inLoop h := h.within (fun _ _ _ => rfl) fun _ _ _ _ _ _ => rfl
  inList _ := fun h => h.within (fun _ _ _ => rfl) fun _ _ _ _ _ _ => rfl
  inStmt _ := fun h => h.within (fun _ _ _ => rfl) fun _ _ _ _ _ _ => rfl
  inAutoescape _ := fun h => h.within (fun _ _ _ => rfl) fun _ _ _ _ _ _ => rfl

end

/-! ### Merging -/

section
variable {env : Env}
  (hsuper : Concurs (env.compiler.stemFor env.source) env.superBlock env.superBlock)
include hsuper

theorem list_concurs (ns : List Node) :
    Concurs (env.compiler.stemFor env.source) (list env .page ns) (list env .page ns) :=
  list_lockstep (concurs_lockstep hsuper) .page ns fun _ _ => trivial

/-- A call of the parent's block gives the same. -/
theorem superCode_concurs :
    Concurs (env.compiler.stemFor env.source) (superCode env) (superCode env) := by
  have hshown : ∀ code : String, Concurs (env.compiler.stemFor env.source)
      (do if (← get).exprLevel == 1 then return code else return "'" ++ Text.slashed code ++ "'")
      (do if (← get).exprLevel == 1 then return code
          else return "'" ++ Text.slashed code ++ "'") := by
    intro code
    refine .get_bind fun s t hst => ?_
    have hlevel : s.exprLevel = t.exprLevel := by
      rw [hst.frame]
      rfl
    rw [hlevel]
    split <;> exact .pure _
  refine .get_bind fun s t hst => ?_
  rw [hst.frame]
  dsimp only [State.noting]
  split
  · exact .pure _
  · split
    · exact (Concurs.pure _).bind hshown
    · rename_i ns _
      refine Concurs.bind ?_ hshown
      exact (list_concurs hsuper ns).within (fun _ _ _ => rfl) fun _ _ _ _ _ _ => rfl

theorem mergeEntries_concurs (own : BlockMap) (entries : List (BlockKey × BlockBody)) :
    Concurs (env.compiler.stemFor env.source) (mergeEntries env own entries)
      (mergeEntries env own entries) := by
  induction entries with
  | nil =>
    rw [mergeEntries]
    exact .pure _
  | cons entry rest ih =>
    obtain ⟨key, inherited⟩ := entry
    have hbody : ∀ body, Concurs (env.compiler.stemFor env.source) (bodyCode env body)
        (bodyCode env body) := by
      intro body
      cases body with
      | code code => exact .pure code
      | nodes ns => exact list_concurs hsuper ns
    rw [mergeEntries]
    refine Concurs.bind (.of_blind fun _ _ _ => rfl) fun _ => (hbody _).bind fun code => ?_
    exact ih.bind fun codes => .pure _

end

/-- Only the bodies under the names of the layout are asked for. -/
theorem mergeEntries_congr (env : Env) {own₁ own₂ : BlockMap}
    (entries : List (BlockKey × BlockBody))
    (h : ∀ name body, (BlockKey.name name, body) ∈ entries → own₁.named? name = own₂.named? name) :
    mergeEntries env own₁ entries = mergeEntries env own₂ entries := by
  induction entries with
  | nil => rw [mergeEntries, mergeEntries]
  | cons entry rest ih =>
    obtain ⟨key, inherited⟩ := entry
    have hover : override own₁ key inherited = override own₂ key inherited := by
      cases key with
      | position p => rfl
      | name name =>
        dsimp only [override]
        rw [h name inherited List.mem_cons_self]
    rw [mergeEntries, mergeEntries, hover,
      ih fun name body hmem => h name body (List.mem_cons_of_mem _ hmem)]

/-- The state in which a template is merged, after its own blocks have been registered. -/
theorem Registered.near {env : Env} {blocks₁ blocks₂ : List (String × List Node)}
    {autoescape : Bool}
    {m : BlockMap} {d : Disk} {t₁ t₂ : State}
    (h₁ : Registered env blocks₁ (.extending autoescape m d) t₁)
    (h₂ : Registered env blocks₂ (.extending autoescape m d) t₂) :
    Near (env.compiler.stemFor env.source) { t₁ with blocks := .empty, extended := false }
      { t₂ with blocks := .empty, extended := false } := by
  -- outside of loops nothing is recorded
  have hopen : ∀ {blocks t}, Registered env blocks (.extending autoescape m d) t →
      t.recorded = [] ∧ t.branches = [] ∧ ∀ x, t.stem = some x →
        x = env.compiler.stemFor env.source := by
    intro blocks t h
    refine ⟨List.eq_nil_iff_forall_not_mem.2 fun depth hd => ?_,
      List.eq_nil_iff_forall_not_mem.2 fun b hb => ?_,
      fun x hx => ?_⟩
    · rcases h.recorded depth hd with hd | ⟨rfl, hpos⟩
      · cases hd
      · cases hpos
    · rcases h.branches b hb with hb | ⟨hzero, hpos⟩
      · cases hb
      · rw [hzero] at hpos
        cases hpos
    · exact (h.stem x hx).resolve_left nofun
  obtain ⟨hrecorded₁, hbranches₁, hstem₁⟩ := hopen h₁
  obtain ⟨hrecorded₂, hbranches₂, hstem₂⟩ := hopen h₂
  refine ⟨?_, hstem₁, hstem₂⟩
  rw [h₁.frame, h₂.frame, hrecorded₁, hrecorded₂, hbranches₁, hbranches₂]
  rfl

/-- What is left to do in a page after it has extended a layout. -/
def extendingPage (env : Env) (rest : List Node) : EmitM String := do
  let code ← extendingList env rest
  if (← get).extended then return String.join ((← merge env).map (·.2))
  else return code

/-- A page that extends a layout, given what that compiles to. -/
theorem exec_page_extending {env : Env} (hext : env.compiler.extensions = []) {path : String}
    (pos : Position) (rest : List Node) (autoescape : Bool) {d d' : Disk} {out : Output}
    (hout : exec (env.nested (env.compiler.viewPath d path) .layout) d = (.ok out, d')) :
    exec (page env (.mk (.extending (some (.str path))) pos :: rest)) (.initial autoescape d) =
      exec (extendingPage env rest) (.extending autoescape out.toBlocks d') := by
  unfold page extendingPage
  rw [exec_bind, exec_list_extending_cons (Compiler.handled_eq_none hext _), hout, exec_bind]

/-- The code of a page that extends a layout is that of the layout's entries. -/
theorem page_registering_ok {env : Env} (hquiet : env.Quiet) (hext : env.compiler.extensions = [])
    {path : String} {pos : Position} {rest : List Node} (hlinks : Node.links rest = [])
    {autoescape : Bool} {d : Disk} {code : String} {t : State}
    (h : exec (page env (.mk (.extending (some (.str path))) pos :: rest)) (.initial autoescape d) =
      (.ok code, t)) :
    ∃ out d' u entries v, exec (env.nested (env.compiler.viewPath d path) .layout) d =
      (.ok out, d') ∧
      Registered env (Node.registered rest) (.extending autoescape out.toBlocks d') u ∧
      exec (mergeEntries env u.blocks out.toBlocks.entries)
      { u with blocks := .empty, extended := false } =
        (.ok entries, v) ∧
      code = String.join (entries.map (·.2)) ∧ t.disk = v.disk := by
  rcases hout : exec (env.nested (env.compiler.viewPath d path) .layout) d with ⟨r, d'⟩
  cases r with
  | error e =>
    obtain ⟨_, u, hlist, -⟩ := exec_bind_eq_ok.1 h
    rw [exec_list_extending_cons (Compiler.handled_eq_none hext _), hout] at hlist
    cases hlist
  | ok out =>
    rw [exec_page_extending hext pos rest autoescape hout] at h
    unfold extendingPage at h
    obtain ⟨_, u, hlist, hpage⟩ := exec_bind_eq_ok.1 h
    have hreg := extendingList_registers hquiet hext hlinks _ _ u rfl rfl rfl hlist
    have hextended : u.extended = true := hreg.extended
    have hparent : u.parent.getD .empty = out.toBlocks := by
      rw [hreg.frame]
      rfl
    rw [exec_bind, exec_get] at hpage
    dsimp only at hpage
    rw [if_pos hextended] at hpage
    obtain ⟨entries, w, hmerge, hcode⟩ := exec_bind_eq_ok.1 hpage
    unfold merge at hmerge
    rw [exec_bind, exec_get] at hmerge
    dsimp only at hmerge
    rw [exec_within, hparent, Prod.mk.injEq] at hmerge
    obtain ⟨hentries, rfl⟩ := hmerge
    cases hcode
    exact ⟨out, d', u, entries, _, rfl, hreg, Prod.ext hentries rfl, rfl, rfl⟩

/-- Two pages that extend one layout, and register the same bodies under its names. -/
theorem page_extending_congr {env : Env} (hquiet : env.Quiet) (hext : env.compiler.extensions = [])
    (hsuper : Concurs (env.compiler.stemFor env.source) env.superBlock env.superBlock)
    {path : String} {pos₁ pos₂ : Position} {rest₁ rest₂ : List Node}
    (hlinks₁ : Node.links rest₁ = [])
    (hlinks₂ : Node.links rest₂ = []) {autoescape : Bool} {d : Disk}
    (hblocks : ∀ out d', exec (env.nested (env.compiler.viewPath d path) .layout) d =
      (.ok out, d') →
      ∀ name ∈ out.toBlocks.names, Node.lastRegistered? name rest₁ =
      Node.lastRegistered? name rest₂)
    {code₁ code₂ : String} {t₁ t₂ : State}
    (h₁ : exec (page env (.mk (.extending (some (.str path))) pos₁ :: rest₁))
      (.initial autoescape d) =
      (.ok code₁, t₁))
    (h₂ : exec (page env (.mk (.extending (some (.str path))) pos₂ :: rest₂))
      (.initial autoescape d) =
      (.ok code₂, t₂)) :
    code₁ = code₂ ∧ t₁.disk = t₂.disk := by
  obtain ⟨out, d', u₁, entries₁, v₁, hout, hreg₁, hmerge₁, rfl, hdisk₁⟩ :=
    page_registering_ok hquiet hext hlinks₁ h₁
  obtain ⟨_, _, u₂, entries₂, v₂, hout', hreg₂, hmerge₂, rfl, hdisk₂⟩ :=
    page_registering_ok hquiet hext hlinks₂ h₂
  cases hout.symm.trans hout'
  have hown : ∀ name body, (BlockKey.name name, body) ∈ out.toBlocks.entries →
      u₁.blocks.named? name = u₂.blocks.named? name := by
    intro name body hmem
    have hname : name ∈ out.toBlocks.names :=
      List.mem_filterMap.2 ⟨_, List.mem_map_of_mem hmem, rfl⟩
    have hbody : lastBody? name (Node.registered rest₁) = lastBody? name (Node.registered rest₂) :=
      hblocks out d' hout name hname
    rw [hreg₁.named, hreg₂.named, hbody]
  rw [mergeEntries_congr env out.toBlocks.entries hown] at hmerge₁
  obtain ⟨rfl, hnear⟩ := mergeEntries_concurs hsuper u₂.blocks out.toBlocks.entries _ _ _ _ v₁ v₂
    (hreg₁.near hreg₂) hmerge₁ hmerge₂
  refine ⟨rfl, hdisk₁.trans (Eq.trans ?_ hdisk₂.symm)⟩
  rw [hnear.frame]
  rfl

end Emit

namespace Compiler

theorem exec_nested (c : Compiler) (path : String) (mode : Mode) (d : Disk) :
    exec (c.nested path mode) d = exec (c.nestedWithin (nestingLimit d) path mode) d := by
  unfold nested
  rw [exec_nestedWithin, exec_bind, exec_get]
  dsimp only
  rw [exec_bind]
  rcases exec (c.compileWithin (nestingLimit d) path mode) d with ⟨r, d'⟩
  cases r <;> rfl

theorem exec_compileSource_extending {c : Compiler} (hext : c.extensions = [])
    {source layout text : String} {pos : Position} {rest : List Node} {d d' : Disk} {out : Output}
    (hparse : c.parse text source = .ok (.mk (.extending (some (.str layout))) pos :: rest))
    (hout : exec (c.nested (c.viewPath d layout) .layout) d = (.ok out, d')) :
    exec (c.compileSource text source .page) d =
      ((exec (Emit.extendingPage (.outer c source c.nested) rest)
          (.extending c.options.autoescape out.toBlocks d')).1.map .code,
        (exec (Emit.extendingPage (.outer c source c.nested) rest)
          (.extending c.options.autoescape out.toBlocks d')).2.disk) := by
  have hpage := @Emit.exec_page_extending
    (.outer c source c.nested) hext _ pos rest c.options.autoescape _ _ _ hout
  rw [compileSource, exec_compileTree, hparse]
  dsimp only
  rw [exec_emit, emitTree, exec_map, hpage]

/-- **Only the blocks of a template matter.** Two templates extend one layout and name no
other template. If the last bodies that they register under the names of the layout are the
same, and both compile, then to the same code. The order of their blocks does not matter,
nor do their other blocks and what stands between them. -/
theorem compileSource_extending_congr {c : Compiler} (hext : c.extensions = [])
    {source layout text₁ text₂ : String} {pos₁ pos₂ : Position} {rest₁ rest₂ : List Node} {d : Disk}
    (hparse₁ : c.parse text₁ source = .ok (.mk (.extending (some (.str layout))) pos₁ :: rest₁))
    (hparse₂ : c.parse text₂ source = .ok (.mk (.extending (some (.str layout))) pos₂ :: rest₂))
    (hlinks₁ : Node.links rest₁ = []) (hlinks₂ : Node.links rest₂ = [])
    (hblocks : ∀ out d', exec (c.nested (c.viewPath d layout) .layout) d = (.ok out, d') →
      ∀ name ∈ out.toBlocks.names, Node.lastRegistered? name rest₁ =
      Node.lastRegistered? name rest₂)
    {out₁ out₂ : Output} {d₁ d₂ : Disk}
    (h₁ : exec (c.compileSource text₁ source .page) d = (.ok out₁, d₁))
    (h₂ : exec (c.compileSource text₂ source .page) d = (.ok out₂, d₂)) :
    out₁ = out₂ ∧ d₁ = d₂ := by
  have hinner : Emit.Concurs (c.stemFor source) (pure "''") (pure "''") := .pure _
  have hsuper : Emit.Concurs (c.stemFor source) (Emit.superCode (.inner c source c.nested))
      (Emit.superCode (.inner c source c.nested)) :=
        @Emit.superCode_concurs (.inner c source c.nested) hinner
  obtain ⟨tree₁, s₁, htree₁, hemit₁, rfl⟩ := compileTree_ok h₁
  obtain ⟨tree₂, s₂, htree₂, hemit₂, rfl⟩ := compileTree_ok h₂
  cases hparse₁.symm.trans htree₁
  cases hparse₂.symm.trans htree₂
  obtain ⟨code₁, hpage₁, rfl⟩ := exec_map_eq_ok.1 hemit₁
  obtain ⟨code₂, hpage₂, rfl⟩ := exec_map_eq_ok.1 hemit₂
  obtain ⟨rfl, hdisk⟩ := Emit.page_extending_congr (Emit.quiet_outer c source c.nested) hext hsuper
    hlinks₁ hlinks₂ hblocks hpage₁ hpage₂
  exact ⟨rfl, hdisk⟩

end Compiler

namespace Facade

/-- A layout with two blocks. -/
def layout : Template :=
  [.mk (.text "<") .unknown, .mk (.block "door" [.mk (.text "shut") .unknown]) .unknown,
    .mk (.block "wall" [.mk (.text "bricks") .unknown]) .unknown, .mk (.text ">") .unknown]

/-- The body that both pages have for a door. -/
def door : List Node :=
  [.mk (.text "ajar, was ") .unknown, .mk (.echo (some Emit.superCall)) .unknown]

/-- A page that defines a macro, and has its last door in a branch. -/
def first : List Node :=
  [.mk (.block "door" [.mk (.text "locked") .unknown]) .unknown,
    .mk (.macroDef "paint" [] []) .unknown,
    .mk (.ifThen (some (.var "open")) [.mk (.block "door" door) .unknown] none) .unknown]

/-- A page with text, and with a block that the layout does not have. -/
def second : List Node :=
  [.mk (.block "door" door) .unknown, .mk (.text "lost") .unknown,
    .mk (.block "roof" [.mk (.text "tiles") .unknown]) .unknown]

def compiler : Compiler :=
  { Compiler.initial with
    makeStem := some fun _ => "v"
    parse := fun text _ => .ok (if text = "X" then layout else
      .mk (.extending (some (.str "x"))) .unknown :: if text = "1" then first else second) }

def disk : Disk := { Disk.empty with items := [(["w", "x"], .file (.text "X") 1000)] }

/-- What the layout compiles to. -/
def blocks : BlockMap :=
  ⟨[(.position 0, .code "<"), (.name "door", .nodes [.mk (.text "shut") .unknown]),
    (.name "wall", .nodes [.mk (.text "bricks") .unknown]), (.position 1, .code ">")], 2⟩

/-- The disk with the layout's compiled file. -/
def after : Disk := (disk.put ["w", "x%%e%%.php"] (.file (.text blocks.text) disk.now)).tick

theorem exec_layout : exec (compiler.nested (compiler.viewPath disk "x") .layout) disk =
    (.ok (.blocks blocks), after) := by
  have hview : compiler.viewPath disk "x" = "x" := rfl
  have hlimit : Compiler.nestingLimit disk = 65 + 1 := rfl
  have hlayout : ∀ depth, exec (compiler.compileWithin (depth + 1) "x" .layout) disk =
      (.ok ⟨.blocks blocks, "x%%e%%.php", true⟩, after) := fun _ => rfl
  rw [hview, Compiler.exec_nested, hlimit, Compiler.exec_nestedWithin, hlayout]
  rfl

theorem exec_page {text code : String} {rest : List Node}
    (hparse : compiler.parse text "y" = .ok (.mk (.extending (some (.str "x"))) .unknown :: rest))
    (hrun : ∀ nested, (exec (Emit.extendingPage (.outer compiler "y" nested) rest)
      (.extending compiler.options.autoescape blocks after)).1 = .ok code) :
    ∃ d', exec (compiler.compileSource text "y" .page) disk = (.ok (.code code), d') := by
  rw [Compiler.exec_compileSource_extending rfl hparse exec_layout, Output.toBlocks, hrun]
  exact ⟨_, rfl⟩

end Facade

/-- Pages that have only the door in common. -/
theorem Compiler.compileSource_extending_congr_facade :
    ∃ d', exec (Facade.compiler.compileSource "1" "y" .page) Facade.disk =
      (.ok (.code "<ajar, was shutbricks>"), d') ∧
      exec (Facade.compiler.compileSource "2" "y" .page) Facade.disk =
      (.ok (.code "<ajar, was shutbricks>"), d') := by
  have hblocks :
      ∀ out d', exec (Facade.compiler.nested (Facade.compiler.viewPath Facade.disk "x") .layout)
        Facade.disk = (.ok out, d') →
      ∀ name ∈ out.toBlocks.names,
        Node.lastRegistered? name Facade.first = Node.lastRegistered? name Facade.second := by
    intro out d' hout
    cases Facade.exec_layout.symm.trans hout
    have hnames : Facade.blocks.names = ["door", "wall"] := by decide
    intro name hname
    rw [Output.toBlocks, hnames] at hname
    simp only [List.mem_cons, List.not_mem_nil, or_false] at hname
    rcases hname with rfl | rfl <;> rfl
  obtain ⟨d₁, h₁⟩ : ∃ d', exec (Facade.compiler.compileSource "1" "y" .page) Facade.disk =
      (.ok (.code "<ajar, was shutbricks>"), d') := Facade.exec_page rfl fun _ => by rfl
  obtain ⟨d₂, h₂⟩ : ∃ d', exec (Facade.compiler.compileSource "2" "y" .page) Facade.disk =
      (.ok (.code "<ajar, was shutbricks>"), d') := Facade.exec_page rfl fun _ => by rfl
  obtain ⟨-, rfl⟩ := compileSource_extending_congr rfl rfl rfl rfl rfl hblocks h₁ h₂
  exact ⟨d₁, h₁, h₂⟩

end Stencil
