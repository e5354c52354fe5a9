/-
# Pages and layouts that extend nothing

A template that names no other one compiles to its plain code as a page. As a
layout it is cut at its outermost blocks: the code between them becomes
segments, and the blocks are kept as they are.

Key definitions: `Compiler.pageOf`, `Node.BlocksOutermost`, `Plain.gather?`.
Key theorems: `Compiler.pageOf_eq_ok_iff`, `Compiler.compileSource_eq_ok_iff`,
`Emit.list_gathers`, `Emit.layout_gathers`.
-/
import Stencil.Proofs.Backdrop
import Stencil.Proofs.Compile
import Stencil.Proofs.EmittedTree

namespace Stencil

/-- What nodes compile to as a page of their own, in a template of the name `source`. -/
def Compiler.pageOf (c : Compiler) (source : String) (d : Disk) (ns : List Node) :
    Except CompileError String :=
  (exec (c.emit (Emit.page (.outer c source c.nested) ns)) d).1

/-- Blocks that are in no other block are outermost statements. -/
def Node.BlocksOutermost (ns : List Node) : Prop :=
  ∀ n ∈ ns, n.stmt.isBlock = true ∨ ∀ x ∈ n.stmt.statements, x.isBlock = false

/-- The macros that nodes define outside their outermost blocks. -/
def Node.openMacros : List Node → List String
  | [] => []
  | .mk s _ :: rest => (if s.isBlock then [] else s.macroNames) ++ Node.openMacros rest

/-- The outermost statements after `code`: what is left of it at the end, and the
blocks and segments added to `m`. -/
def Plain.gather? (S : Site) (k : Spot) : List Node → String → BlockMap → Option (String × BlockMap)
  | [], code, m => some (code, m)
  | .mk (.block name body) _ :: rest, code, m =>
    gather? S k rest "" ((m.segment code).define name (.nodes body))
  | .mk s _ :: rest, code, m => do
    let more ← stmt? S k s
    gather? S k rest (code ++ more) m

theorem Plain.gather?_cons {S : Site} {k : Spot} {s : Stmt} (hs : s.isBlock = false)
    (pos : Position) (rest : List Node) (code : String) (m : BlockMap) :
    gather? S k (.mk s pos :: rest) code m =
      stmt? S k s >>= fun more => gather? S k rest (code ++ more) m := by
  cases s with
  | block name body => cases hs
  | _ => rfl

namespace Emit

open Plain (Spot)

/-! ### Scenes of a template -/

/-- The scene of a template in which no block is overridden. -/
def Scene.quiet (env : Env) (mode : Mode) (bare : Bool) (parent : Option BlockMap) : Scene :=
  ⟨env, mode, bare, none, parent, none, true⟩

section
variable {c : Compiler} {source : String} {nested : String → Mode → DiskM Output}

theorem quiet_whole (h : c.extensions = []) (mode : Mode) (bare : Bool) (parent : Option BlockMap) :
    (Scene.quiet (.outer c source nested) mode bare parent).Whole where
  extensions := h
  quiet := fun _ _ hs _ => exec_superCode_none _ hs
  notForElse := nofun
  plugged := nofun

/-- Where calls of the parent's block are quiet, any statement fits that names no
template. -/
theorem fits_of_quiet {K : Scene} (hplug : K.plug = none) {x : Stmt} (hlink : x.link? = none)
    (hblock : K.bare = true → x.isBlock = false) : K.Fits x := by
  refine ⟨hlink, hblock, .inr fun e _ => Expr.all_of_forall (fun e => ?_) e⟩
  simp [Scene.admits, hplug]

end

theorem using_outermost (autoescape uses : Bool) :
    (Spot.outermost autoescape).using uses = Spot.outermost autoescape := by
  simp [Spot.using, Spot.outermost]

/-! ### Pages -/

section
variable {c : Compiler} {ns : List Node}

theorem initial_at (env : Env) (a : Bool) (d : Disk) :
    At (.quiet env .page false none) (.outermost a) (.initial a d) :=
  ⟨rfl, rfl, rfl, rfl, nofun, rfl, rfl, .inl ⟨rfl, rfl⟩, fun _ => rfl⟩

/-- A page that names no template compiles to its plain code, unless a macro is
defined twice. -/
theorem page_yields (source : String) (nested : String → Mode → DiskM Output) (d : Disk)
    (hext : c.extensions = []) (hlinks : Node.links ns = []) (a : Bool) :
    Yields (page (.outer c source nested) ns) (.initial a d) (Node.macroNames ns).Nodup
      (Plain.nodes? (c.site source) (.outermost a) ns) fun t => t.disk = d := by
  have hfits : ∀ x ∈ Node.statements ns,
      (Scene.quiet (.outer c source nested) .page false none).Fits x :=
    fun x hx => fits_of_quiet rfl (Node.link?_of_links hlinks hx) nofun
  have hlist := list_emits (quiet_whole hext .page false none) ns (.outermost a) hfits _
    (initial_at _ a d)
  have hplug : Node.plug none ns = ns := Node.plug_none ns
  simp only [Scene.quiet, hplug] at hlist
  have hcode : Plain.nodes? (c.site source) (.outermost a) ns =
      Plain.nodes? (c.site source) (.outermost a) ns >>= some := by simp
  rw [hcode, ← fresh_empty]
  refine hlist.bind_last fun code t _ hm => ?_
  have hf := hm.frame
  have hextended : t.extended = false := by rw [hf]; rfl
  refine .get_bind ?_
  rw [hextended]
  exact .pure trivial (by rw [hf]; rfl)

end

/-! ### Registering blocks -/

/-- Where blocks are registered, a block ends the segment before it. -/
theorem exec_step_block {env : Env} (hext : env.compiler.extensions = []) (name : String)
    (body : List Node) (pos : Position) (code : String) (m : EmitM String) (s : State) :
    exec (step env (.mk (.block name body) pos) true code m) s =
      (.ok ("", true), { s with blocks := (s.blocks.segment code).define name (.nodes body) }) := by
  unfold step inStmt
  rw [exec_within, Compiler.handled_eq_none hext]
  dsimp only [Node.stmt]
  rw [exec_place_block]

theorem Yields.of_exec {α β : Type} {m : EmitM α} {f : α → EmitM β} {s t : State} {a : α} {F : Prop}
    {r : Option β} {Q : State → Prop} (h : exec m s = (.ok a, t)) (hf : Yields (f a) t F r Q) :
    Yields (m >>= f) s F r Q := by
  unfold Yields
  rw [exec_bind, h]
  exact hf

/-- The outermost list of a layout. What is left at its end is the last segment. -/
theorem Yields.outermost {emit : Bool → EmitM (String × Bool)} {s : State} {F : Prop}
    {r : Option String} {P Q : State → Prop} (hlevel : s.blockLevel = 0)
    (h : Yields (emit true) { s with level := s.level + 1, blockLevel := 1 } F
      (r.map fun code => (code, true)) P)
    (hQ : ∀ code u, r = some code → P u → u.blockLevel = 1 ∧
      Q { u with level := u.level - 1, blockLevel := 0, blocks := u.blocks.segment code }) :
    Yields (sequence .layout false emit) s F r Q := by
  have hr : r = (r.map fun code => (code, true)) >>= fun p => some p.1 := by cases r <;> rfl
  have hemit : Yields (emit true)
      { s with level := s.level + 1, blockLevel := s.blockLevel + true.toNat } F
      (r.map fun code => (code, true)) P := by
    rw [hlevel]
    exact h
  have hregistering : (s.extended || Mode.layout == .layout) = true := by simp
  unfold sequence
  refine .get_bind ?_
  dsimp only
  rw [hregistering, hr]
  have hin : Yields (inList true (emit true)) s F (r.map fun code => (code, true)) fun t =>
      ∃ u, P u ∧ t = { u with level := u.level - 1, blockLevel := u.blockLevel - 1 } :=
    hemit.within fun u hu => ⟨u, hu, rfl⟩
  refine hin.bind_last fun p t hp ht => ?_
  obtain ⟨code, rfl, rfl⟩ : ∃ code, r = some code ∧ (code, true) = p := Option.map_eq_some_iff.1 hp
  obtain ⟨u, hu, rfl⟩ := ht
  obtain ⟨hone, hq⟩ := hQ code u rfl hu
  refine .get_bind ?_
  have hzero : (true && u.blockLevel - 1 == 0) = true := by simp [hone]
  dsimp only
  rw [if_pos hzero]
  refine .of_exec (exec_segment code _) (.pure trivial ?_)
  simpa [hone] using hq

theorem Moved.setBlocks {K : Scene} {k : Spot} {names : List String} {s t : State}
    (h : Moved K k names s t) (b : BlockMap) :
    Moved K k names { s with blocks := b } { t with blocks := b } := by
  have hf := h.frame
  refine ⟨?_, h.recorded, h.used, h.branches, h.macros, h.stem⟩
  rw [hf]

section
variable {K : Scene} {a : Bool} {names more : List String} {s t u : State}

theorem Moved.at_outermost (hs : At K (.outermost a) s) (hm : Moved K (.outermost a) names s t) :
    At K (.outermost a) t := by
  rw [← using_outermost a false] at hm ⊢
  exact hm.at hs

theorem Moved.trans_outermost (h : Moved K (.outermost a) names s t)
    (h' : Moved K (.outermost a) more t u) : Moved K (.outermost a) (names ++ more) s u := by
  rw [← using_outermost a false] at h
  rw [← using_outermost a (false || false)] at h' ⊢
  exact h.trans h'

/-- Outermost statements, where blocks are registered. -/
theorem nodes_gathers (H : K.Whole) (hplug : K.plug = none) (hbare : K.bare = true) :
    ∀ (ns : List Node) (code : String) (s : State), Node.links ns = [] → Node.BlocksOutermost ns →
    At K (.outermost a) s →
    Yields (nodes K.env K.mode ns true code) s (Fresh (Node.openMacros ns) s.macros)
      ((Plain.gather? K.site (.outermost a) ns code s.blocks).map fun p => (p.1, true))
      fun t => Moved K (.outermost a) (Node.openMacros ns) { s with blocks := t.blocks } t ∧
        (Plain.gather? K.site (.outermost a) ns code s.blocks).map (·.2) = some t.blocks
  | [], code, s, _, _, hs => by
    rw [nodes]
    exact .pure (fresh_nil _) ⟨hs.moved, rfl⟩
  | .mk x pos :: rest, code, s, hlinks, hblocks, hs => by
    rw [Node.links_cons, List.append_eq_nil_iff] at hlinks
    have hrest : Node.BlocksOutermost rest := fun n hn => hblocks n (List.mem_cons_of_mem _ hn)
    have ih := fun code t => nodes_gathers H hplug hbare rest code t hlinks.2 hrest
    rw [nodes]
    cases hx : x.isBlock with
    | true =>
      obtain ⟨name, body, rfl⟩ := Stmt.eq_block hx
      refine .of_exec (exec_step_block H.extensions name body pos code _ s) ?_
      have hopen : Node.openMacros (.mk (.block name body) pos :: rest) =
          Node.openMacros rest := rfl
      rw [hopen]
      exact ih "" _ ⟨hs.autoescape, hs.depth, hs.branch, hs.used, hs.stem, hs.block, hs.parent,
        hs.inline, hs.rest⟩
    | false =>
      have hbare' : ∀ y ∈ x.statements, y.isBlock = false :=
        (hblocks _ List.mem_cons_self).resolve_left (by simp [Node.stmt, hx])
      have hfits : ∀ y ∈ x.statements, K.Fits y := fun y hy =>
        fits_of_quiet hplug (List.filterMap_eq_nil_iff.1 hlinks.1 y hy) fun _ => hbare' y hy
      have hstmt := stmt_emits H x (.outermost a) hfits
      rw [hplug, Stmt.plug_none] at hstmt
      have hext : x.isExtending = true → Plain.stmt? K.site (.outermost a) x = none := fun he => by
        simpa [Stmt.plug_none] using stmt?_extending (p := none) (k := .outermost a)
          (S := K.site) he
      have hstep : Emits K (.outermost a) x.macroNames x.usesLoop _
          (step K.env (.mk x pos) true code (stmt K.env K.mode x)) :=
        step_emits H.toSimple x pos (fun _ => hx) code hext hstmt
      have hgather := Plain.gather?_cons (S := K.site) (k := .outermost a) hx pos rest code s.blocks
      have hresult : (Plain.gather? K.site (.outermost a) (.mk x pos :: rest) code s.blocks).map
            (fun p => (p.1, true)) =
          ((Plain.stmt? K.site (.outermost a) x).map fun more => (code ++ more, true)) >>= fun p =>
            (Plain.gather? K.site (.outermost a) rest p.1 s.blocks).map fun q => (q.1, true) := by
        rw [hgather]
        cases Plain.stmt? K.site (.outermost a) x <;> rfl
      have hopen : Node.openMacros (.mk x pos :: rest) = x.macroNames ++ Node.openMacros rest := by
        simp [Node.openMacros, hx]
      rw [hresult, hopen]
      refine (hstep s hs).bind_fresh (fun t hm => hm.macros) fun p t hp hm => ?_
      obtain ⟨more, hmore, rfl⟩ := Option.map_eq_some_iff.1 hp
      rw [using_outermost] at hm
      have hkept : t.blocks = s.blocks := by rw [hm.frame]
      rw [← hkept] at hgather ⊢
      refine (ih (code ++ more) t (hm.at_outermost hs)).mono Iff.rfl fun u hu => ⟨?_, ?_⟩
      · exact (hm.setBlocks u.blocks).trans_outermost hu.1
      · rw [hgather, hmore]
        exact hu.2

/-- A template that extends nothing, as a layout. -/
theorem list_gathers (H : K.Whole) (hplug : K.plug = none) (hbare : K.bare = true)
    (hmode : K.mode = .layout) {ns : List Node} (hlinks : Node.links ns = [])
    (hblocks : Node.BlocksOutermost ns) (hlevel : s.blockLevel = 0)
    (hs : At K (.outermost a) { s with level := s.level + 1, blockLevel := 1 }) :
    Yields (list K.env K.mode ns) s (Fresh (Node.openMacros ns) s.macros)
      ((Plain.gather? K.site (.outermost a) ns "" s.blocks).map (·.1))
      fun t => Moved K (.outermost a) (Node.openMacros ns) { s with blocks := t.blocks } t ∧
        (Plain.gather? K.site (.outermost a) ns "" s.blocks).map (fun p => p.2.segment p.1) =
          some t.blocks := by
  cases ns with
  | nil =>
    refine .pure (fresh_nil _) ⟨?_, rfl⟩
    exact ⟨rfl, fun _ _ => rfl, hs.used, fun _ _ => rfl, by simp [Node.openMacros], hs.stem⟩
  | cons n ns =>
    have hnodes := nodes_gathers H hplug hbare (n :: ns) "" _ hlinks hblocks hs
    have hcode : (Plain.gather? K.site (.outermost a) (n :: ns) "" s.blocks).map
        (fun p => (p.1, true)) =
        ((Plain.gather? K.site (.outermost a) (n :: ns) "" s.blocks).map (·.1)).map
          fun code => (code, true) := by rw [Option.map_map]; rfl
    unfold list
    rw [hmode] at hnodes ⊢
    rw [hcode] at hnodes
    refine Yields.outermost hlevel hnodes fun code u hr hu => ?_
    obtain ⟨p, hp, rfl⟩ := Option.map_eq_some_iff.1 hr
    obtain ⟨hm, hgathered⟩ := hu
    have hkept : p.2 = u.blocks := by simpa [hp] using hgathered
    have hf := hm.frame
    refine ⟨by rw [hf], ⟨?_, hm.recorded, hm.used, hm.branches, hm.macros, hm.stem⟩, ?_⟩
    · rw [hf]
      simp [hlevel]
    · simp [hp, hkept]

end

/-- A layout that extends nothing: the blocks and segments of its statements. -/
theorem layout_gathers {c : Compiler} {ns : List Node} (source : String)
    (nested : String → Mode → DiskM Output) (a : Bool) (d : Disk) (hext : c.extensions = [])
    (hlinks : Node.links ns = []) (hblocks : Node.BlocksOutermost ns) :
    Yields (layout (.outer c source nested) ns) (.initial a d) (Node.openMacros ns).Nodup
      ((Plain.gather? (c.site source) (.outermost a) ns "" .empty).map fun p => p.2.segment p.1)
      fun t => t.disk = d := by
  have hat : At (.quiet (.outer c source nested) .layout true none) (.outermost a)
      { State.initial a d with level := 1, blockLevel := 1 } :=
    ⟨rfl, rfl, rfl, rfl, nofun, rfl, rfl, .inr ⟨rfl, Nat.one_pos⟩, fun _ => rfl⟩
  have hlist : Yields (list (.outer c source nested) .layout ns) (.initial a d) _ _ _ :=
    list_gathers (quiet_whole hext .layout true none) rfl rfl rfl hlinks hblocks rfl hat
  have hcode : (Plain.gather? (c.site source) (.outermost a) ns "" .empty).map
      (fun p => p.2.segment p.1) =
      (Plain.gather? (c.site source) (.outermost a) ns "" .empty).map (·.1) >>= fun _ =>
        (Plain.gather? (c.site source) (.outermost a) ns "" .empty).map fun p =>
          p.2.segment p.1 := by
    cases Plain.gather? (c.site source) (.outermost a) ns "" .empty <;> rfl
  rw [hcode, ← fresh_empty]
  refine hlist.bind_last fun code t _ ht => ?_
  obtain ⟨hm, hblocks⟩ := ht
  have hf := hm.frame
  have hextended : ¬ t.extended = true := by rw [hf]; exact Bool.false_ne_true
  have hblocks : (Plain.gather? (c.site source) (.outermost a) ns "" .empty).map
    (fun p => p.2.segment p.1) = some t.blocks := hblocks
  refine .get_bind ?_
  rw [if_neg hextended, hblocks]
  exact .get_bind (.pure trivial (by rw [hf]; rfl))

end Emit

/-- Nodes that name no template compile to their plain code, unless a macro is defined
twice. -/
theorem Compiler.pageOf_eq_ok_iff {c : Compiler} {source : String} {d : Disk} {ns : List Node}
    {code : String} (hext : c.extensions = []) (hlinks : Node.links ns = []) :
    c.pageOf source d ns = .ok code ↔
      Plain.nodes? (c.site source) (.outermost c.options.autoescape) ns = some code ∧
        (Node.macroNames ns).Nodup := by
  have hpage := Emit.page_yields source c.nested d hext hlinks c.options.autoescape
  unfold pageOf
  rw [Compiler.exec_emit]
  constructor
  · exact fun h => hpage.1 code _ (Prod.ext h rfl)
  · rintro ⟨hcode, hnodup⟩
    obtain ⟨t, ht, -⟩ := hpage.2 code hcode hnodup
    rw [ht]

theorem Compiler.exec_compileSource_page {c : Compiler} {d : Disk} {text source : String}
    {tree : Template} (hparse : c.parse text source = .ok tree) :
    (exec (c.compileSource text source .page) d).1 = (c.pageOf source d tree).map .code := by
  rw [compileSource, exec_compileTree, hparse]
  dsimp only
  rw [exec_emit, emitTree, exec_map]
  rfl

/-- A template that names no other one is compiled from memory to its plain code, unless
a macro is defined twice. -/
theorem Compiler.compileSource_eq_ok_iff {c : Compiler} {d : Disk} {text source : String}
    {tree : Template} {code : String} (hext : c.extensions = [])
    (hparse : c.parse text source = .ok tree) (hlinks : Node.links tree = []) :
    (exec (c.compileSource text source .page) d).1 = .ok (.code code) ↔
      Plain.nodes? (c.site source) (.outermost c.options.autoescape) tree = some code ∧
        (Node.macroNames tree).Nodup := by
  rw [exec_compileSource_page hparse, ← pageOf_eq_ok_iff (d := d) hext hlinks]
  cases c.pageOf source d tree <;> simp [Except.map]

end Stencil
