/-
# Escaping in a page that extends a layout

A page that only extends a layout puts together the code that the layout's statements
were emitted as and the code that the bodies of its blocks are emitted as now. Nothing
is left by then of the statements around a block: a print in a block is escaped as the
nearest switch inside of the outermost block says, or as the compiler's option does. A
switch around the block counts for the layout as a page of its own only.

This is said with pinned trees: the page has the code that it has if each print of the
layout is put under a setting of its own. Where no switch around an outermost block
changes the setting, that is the setting of the nearest switch around the print.

Key definitions: `BlockMap.pin`, `Node.blocksAt`, `Compiler.Renders`.
Key theorems: `Emit.layout_pinned`, `Emit.mergeEntries_mirrors`,
`Compiler.compile_extending_escapes`.
-/
import Stencil.Proofs.Merging
import Stencil.Proofs.Pinned

namespace Stencil

/-! ### Blocks with pinned bodies -/

/-- The body with all prints in it pinned, where pages start with this setting. -/
def BlockBody.pin (start : Bool) : BlockBody → BlockBody
  | .code text => .code text
  | .nodes ns => .nodes (Node.pin start .page start ns)

/-- The blocks with all prints in their bodies pinned. -/
def BlockMap.pin (start : Bool) (m : BlockMap) : BlockMap :=
  ⟨m.entries.map fun entry => (entry.1, entry.2.pin start), m.next⟩

/-- No body extends a template. -/
def BlockMap.Settled (m : BlockMap) : Prop :=
  ∀ key ns, (key, .nodes ns) ∈ m.entries → ∀ y ∈ Node.statements ns, y.isExtending = false

theorem BlockMap.settled_empty : BlockMap.empty.Settled := fun _ _ h => nomatch h

section
variable {start : Bool}

theorem BlockMap.put_pin (key : BlockKey) (body : BlockBody) :
    ∀ entries : List (BlockKey × BlockBody),
    BlockMap.put key (body.pin start) (entries.map fun entry => (entry.1, entry.2.pin start)) =
      (BlockMap.put key body entries).map fun entry => (entry.1, entry.2.pin start)
  | [] => rfl
  | (k, b) :: rest => by
    by_cases hk : k = key
    · simp [BlockMap.put, hk]
    · simp [BlockMap.put, hk, BlockMap.put_pin key body rest]

theorem BlockMap.segment_pin (m : BlockMap) (code : String) :
    (m.pin start).segment code = (m.segment code).pin start := by
  unfold BlockMap.segment
  by_cases hcode : code = ""
  · rw [if_pos hcode, if_pos hcode]
  · rw [if_neg hcode, if_neg hcode]
    exact congrArg (BlockMap.mk · (m.next + 1))
      (BlockMap.put_pin (.position m.next) (.code code) m.entries)

theorem Emit.Write.to_pin (m : BlockMap) (w : Write) :
    (w.pin start).to (m.pin start) = (w.to m).pin start := by
  cases w with
  | segment code => exact m.segment_pin code
  | define name body =>
    exact congrArg (BlockMap.mk · m.next) (BlockMap.put_pin (.name name) (.nodes body) m.entries)

theorem Emit.Write.foldl_pin (ws : List Write) : ∀ m : BlockMap,
    (ws.map (·.pin start)).foldl Write.to (m.pin start) = (ws.foldl Write.to m).pin start := by
  induction ws with
  | nil => exact fun _ => rfl
  | cons w ws ih =>
    intro m
    rw [List.map_cons, List.foldl_cons, List.foldl_cons, Write.to_pin, ih]

end

/-! ### Blocks under a switch -/

mutual

/-- All outermost blocks of the statement are under the setting `start`, where it is under `a`. -/
def Stmt.blocksAt (start a : Bool) : Stmt → Bool
  | .ifThen _ b e => Node.blocksAt start a b && Node.blocksAtOption start a e
  | .switchOn _ b => Node.blocksAt start a b
  | .forIn _ _ _ _ b => Node.blocksAt start a b
  | .block _ _ => a == start
  | .macroDef _ _ b => Node.blocksAt start a b
  | .autoescape f b => Node.blocksAt start (f.getD a) b
  | .cached _ _ b => Node.blocksAt start a b
  | _ => true

/-- All outermost blocks of the nodes are under the setting `start`. -/
def Node.blocksAt (start a : Bool) : List Node → Bool
  | [] => true
  | .mk s _ :: rest => s.blocksAt start a && Node.blocksAt start a rest

/-- All outermost blocks of the nodes, if there are any, are under the setting `start`. -/
def Node.blocksAtOption (start a : Bool) : Option (List Node) → Bool
  | none => true
  | some ns => Node.blocksAt start a ns

end

mutual

/-- There a print is pinned in a layout as it is in a page. -/
theorem Stmt.pin_layout {start : Bool} : ∀ (s : Stmt) {a : Bool}, s.blocksAt start a = true →
    s.pin start .layout a = s.pin start .page a
  | .ifThen c b e, a, h => by
    rw [Stmt.blocksAt, Bool.and_eq_true] at h
    rw [Stmt.pin, Stmt.pin, Node.pin_layout b h.1, Node.pinOption_layout e h.2]
  | .switchOn e b, a, h => by rw [Stmt.pin, Stmt.pin, Node.pin_layout b h]
  | .forIn t k i g b, a, h => by rw [Stmt.pin, Stmt.pin, Node.pin_layout b h]
  | .block n b, a, h => by
    have ha : a = start := eq_of_beq h
    rw [Stmt.pin, Stmt.pin, Mode.inBlock, Mode.inBlock, ha]
  | .macroDef n ps b, a, h => by rw [Stmt.pin, Stmt.pin, Node.pin_layout b h]
  | .autoescape f b, a, h => by rw [Stmt.pin, Stmt.pin, Node.pin_layout b h]
  | .cached k l b, a, h => by rw [Stmt.pin, Stmt.pin, Node.pin_layout b h]
  | .text _, _, _ | .echo _, _, _ | .elseIf _, _, _ | .caseOf _, _, _ | .caseDefault, _, _
  | .forElse, _, _ | .assign _, _, _ | .extending _, _, _ | .including _ _, _, _ | .evaluate _, _, _
  | .returning _, _, _ | .continueLoop, _, _ | .breakLoop, _, _ | .unknown, _, _ => rfl

theorem Node.pin_layout {start : Bool} :
    ∀ (ns : List Node) {a : Bool}, Node.blocksAt start a ns = true →
    Node.pin start .layout a ns = Node.pin start .page a ns
  | [], _, _ => rfl
  | .mk s pos :: rest, a, h => by
    rw [Node.blocksAt, Bool.and_eq_true] at h
    rw [Node.pin, Node.pin, Stmt.pin_layout s h.1, Node.pin_layout rest h.2]

theorem Node.pinOption_layout {start : Bool} : ∀ (ns : Option (List Node)) {a : Bool},
    Node.blocksAtOption start a ns = true →
      Node.pinOption start .layout a ns = Node.pinOption start .page a ns
  | none, _, _ => rfl
  | some ns, a, h => by rw [Node.pinOption, Node.pinOption, Node.pin_layout ns h]

end

namespace Emit

/-! ### What a layout leaves -/

theorem Write.settled_to {m : BlockMap} (hm : m.Settled) {w : Write} (hw : w.Settled) :
    (w.to m).Settled := by
  intro key ns hmem
  cases w with
  | segment code =>
    have hmem : (key, .nodes ns) ∈ (m.segment code).entries := hmem
    unfold BlockMap.segment at hmem
    split at hmem
    · exact hm key ns hmem
    · rcases BlockMap.mem_put hmem with hmem | ⟨-, hbody⟩
      · exact hm key ns hmem
      · cases hbody
  | define name body =>
    rcases BlockMap.mem_put hmem with hmem | ⟨-, hbody⟩
    · exact hm key ns hmem
    · cases hbody
      exact hw

theorem Write.settled_foldl {m : BlockMap} (hm : m.Settled) {ws : List Write}
    (hws : ∀ w ∈ ws, w.Settled) :
    (ws.foldl Write.to m).Settled := by
  induction ws generalizing m with
  | nil => exact hm
  | cons w ws ih =>
    rw [List.forall_mem_cons] at hws
    exact ih (settled_to hm hws.1) hws.2

/-- The text prints the code of the expression, escaped or as it is. -/
def PrintsAs (env : Env) (escaped : Bool) (e : Expr) (text : String) : Prop :=
  ∃ code s t, exec (expr env e) s = (.ok code, t) ∧
    text = if escaped then Code.printEscaped code else Code.print code

/-- The backdrop before anything is emitted, inside of the outermost list. -/
def Backdrop.outermost : Backdrop := Backdrop.deeper ⟨.empty, 0, 0, none⟩ .layout

/-- The blocks of a layout, given what its statements add. -/
theorem exec_layout_writes {env : Env} {tree : Template} (hne : tree.isEmpty = false) {a : Bool}
    {d : Disk} {t : State}
    {ws : List Write} {r : Except CompileError (String × Bool)} (hkept : Kept (.initial a d) t)
    (hreg : ∀ p, r = .ok p → p.2 = true)
    (h : exec (nodes env .layout tree true "") ((State.initial a d).over .outermost) =
      (r, t.over (Backdrop.outermost.write ws))) :
    (exec (layout env tree) (.initial a d)).1 = r.map fun p =>
      (ws.foldl Write.to .empty).segment p.1 := by
  have hcalm : Calm (State.initial a d) := ⟨rfl, rfl⟩
  have hlist : list env .layout tree = sequence .layout false fun r =>
      nodes env .layout tree r "" := by
    unfold list
    rw [hne]
  have hrun := @exec_sequence .layout (fun r => nodes env .layout tree r "") (.initial a d) t
    ⟨.empty, 0, 0, none⟩ _ r
    hcalm hreg h
  rw [← hlist] at hrun
  refine (congrArg Prod.fst (exec_layout hrun (hcalm.kept hkept).extended)).trans ?_
  cases r <;> rfl

section
variable {env : Env} (hquiet : env.Quiet) (hhooks : env.Unhooked) {a : Bool}
include hquiet hhooks

/-- The blocks of a layout, and those of its pinned tree. -/
theorem layout_pinned (start : Bool) {tree : Template}
    (hext : ∀ y ∈ Node.statements tree, y.isExtending = false) {d : Disk} {m : BlockMap}
    (h : (exec (layout env tree) (.initial a d)).1 = .ok m) :
    m.Settled ∧ (exec (layout env (Node.pin start .layout a tree)) (.initial a d)).1 =
      .ok (m.pin start) := by
  cases hne : tree.isEmpty with
  | true =>
    cases List.isEmpty_iff.1 hne
    cases h
    exact ⟨BlockMap.settled_empty, rfl⟩
  | false =>
    have hne' : (Node.pin start .layout a tree).isEmpty = false := (Node.isEmpty_pin tree).trans hne
    obtain ⟨ws, r, t, hkept, hws, hrun⟩ :=
      @nodes_mirrors _ start hquiet hhooks tree .layout a hext "" (.initial a d) ⟨rfl, rfl⟩ rfl
    obtain ⟨hrun, hpinned⟩ := hrun .outermost (Backdrop.inside_deeper _ .layout)
    have hreg : ∀ p, r = .ok p → p.2 = true := by
      rintro p rfl
      exact nodes_registering (fun _ hn => hext _ (Node.stmt_mem_statements hn)) hrun
    have hlayout := exec_layout_writes hne' hkept hreg hpinned
    rw [exec_layout_writes hne hkept hreg hrun] at h
    cases r with
    | error e => cases h
    | ok p =>
      cases h
      have hblocks : (ws.foldl Write.to .empty).Settled :=
        Write.settled_foldl BlockMap.settled_empty hws.settled
      refine ⟨Write.settled_to (w := .segment p.1) hblocks trivial, hlayout.trans ?_⟩
      have hmap : (ws.map (·.pin start)).foldl Write.to .empty =
          (ws.foldl Write.to .empty).pin start :=
        Write.foldl_pin ws .empty
      rw [hmap]
      exact congrArg Except.ok (BlockMap.segment_pin _ _)

/-- Merged entries have the code of their pinned bodies, where nothing is overridden. -/
theorem mergeEntries_mirrors : ∀ {entries : List (BlockKey × BlockBody)},
    (∀ key ns, (key, BlockBody.nodes ns) ∈ entries →
      ∀ y ∈ Node.statements ns, y.isExtending = false) →
    Mirrors a .page a (mergeEntries env .empty entries)
      (mergeEntries env .empty (entries.map fun entry => (entry.1, entry.2.pin a)))
  | [], _ => (Silent.pure _).mirrors
  | (key, body) :: rest, hext => by
    have hown : ∀ body : BlockBody, override .empty key body = (none, body) := by
      intro body
      cases key <;> rfl
    have houtside : Silent (modify fun s => { s with currentBlock := none }) := by
      intro s hs
      refine ⟨.ok ⟨⟩, { s with currentBlock := none }, ?_, fun b => rfl⟩
      unfold Kept
      rw [hs]
    have hbody : Mirrors a .page a (bodyCode env body) (bodyCode env (body.pin a)) := by
      cases body with
      | code text => exact (Silent.pure text).mirrors
      | nodes ns =>
        have hns := hext key ns List.mem_cons_self
        have hnodes : Mirrors a .page a (nodes env .page ns false "")
            (nodes env .page (Node.pin a .page a ns) false "") :=
              nodes_mirrors hquiet hhooks ns .page a hns ""
        show Mirrors a .page a (list env .page ns) (list env .page (Node.pin a .page a ns))
        unfold list
        rw [Node.isEmpty_pin]
        exact list_mirrors hns hnodes
    rw [List.map_cons, mergeEntries, mergeEntries]
    dsimp only
    rw [hown, hown]
    refine houtside.mirrors.bind fun _ => hbody.bind fun code => ?_
    exact (mergeEntries_mirrors fun k ns hmem =>
      hext k ns (List.mem_cons_of_mem _ hmem)).bind_pure _

/-- A page that overrides nothing has the code of the pinned bodies. -/
theorem merge_pinned {m : BlockMap} (hm : m.Settled) (d : Disk) :
    (exec (merge env) (.extending a (m.pin a) d)).1 = (exec (merge env) (.extending a m d)).1 := by
  obtain ⟨ws, r, u, -, hws, hrun⟩ :=
    mergeEntries_mirrors hquiet hhooks hm (.initial a d) ⟨rfl, rfl⟩ rfl
  have hmerge : ∀ m' : BlockMap, (exec (merge env) (.extending a m' d)).1 =
      (exec (mergeEntries env .empty m'.entries)
        ((State.initial a d).over ⟨.empty, 0, 0, some m'⟩)).1 :=
    fun _ => rfl
  have hplain := (hrun ⟨.empty, 0, 0, some m⟩ nofun).1
  have hpinned := (hrun ⟨.empty, 0, 0, some (m.pin a)⟩ nofun).2
  rw [hmerge, hmerge]
  exact (congrArg Prod.fst hpinned).trans (congrArg Prod.fst hplain).symm

/-- A print under a setting of its own is escaped as that says. -/
theorem exec_print_pinned {mode : Mode} {f : Bool} {e : Expr} {s : State} {text : String}
    (hs : Calm s) (hmode : mode = .layout → 0 < s.blockLevel) (he : e.isSuper = false)
    (h : (exec (stmt env mode (.autoescape (some f) [.mk (.echo (some e)) s.pos])) s).1 =
      .ok text) :
    PrintsAs env f e text := by
  obtain ⟨r, u, hkept, hprint⟩ := exec_pinned mode hquiet hhooks e (s := { s with autoescape := f })
    ⟨hs.currentBlock, hs.extended⟩
  obtain ⟨hecho, hpinned⟩ := hprint s.backdrop hmode
  have hsame : (exec (stmt env mode (.autoescape (some f) [.mk (.echo (some e)) s.pos])) s).1 = r :=
    congrArg Prod.fst hpinned
  rw [h] at hsame
  subst hsame
  rw [stmt] at hecho
  unfold echo at hecho
  rw [required, pure_bind] at hecho
  obtain ⟨code, t', hcode, hrest⟩ := exec_bind_eq_ok.1 hecho
  refine ⟨code, _, t', hcode, ?_⟩
  have hflag : t'.autoescape = f := by
    obtain ⟨r, u', hkept', hexpr⟩ := expr_silent hquiet e { s with autoescape := f } hs.currentBlock
    have hrun := (hexpr s.backdrop).symm.trans hcode
    cases hrun
    exact hkept'.autoescape
  rw [he, if_neg Bool.false_ne_true, exec_bind, exec_get] at hrest
  dsimp only at hrest
  rw [hflag] at hrest
  cases f <;> cases hrest <;> rfl

end

/-- A page that only extends a layout, given that it has code. -/
theorem page_extending_ok {env : Env} {path : String} {pos : Position}
    (hhook : env.compiler.handled (·.statement (.mk (.extending (some (.str path))) pos)) = none)
    {a : Bool} {d : Disk} {code : String}
    (h : (exec (page env [.mk (.extending (some (.str path))) pos]) (.initial a d)).1 = .ok code) :
    ∃ out d' entries, exec (env.nested (env.compiler.viewPath d path) .layout) d = (.ok out, d') ∧
      (exec (merge env) (.extending a out.toBlocks d')).1 = .ok entries ∧
      code = String.join (entries.map (·.2)) := by
  unfold page at h
  rw [exec_bind, exec_list_extending hhook] at h
  rcases hnested : exec (env.nested (env.compiler.viewPath d path) .layout) d with ⟨r, d'⟩
  rw [hnested] at h
  cases r with
  | error e => cases h
  | ok out =>
    have hextended : (State.extending a out.toBlocks d').extended = true := rfl
    dsimp only at h
    rw [exec_bind, exec_get] at h
    dsimp only at h
    rw [if_pos hextended, exec_bind] at h
    rcases hmerge : exec (merge env) (.extending a out.toBlocks d') with ⟨r, t⟩
    rw [hmerge] at h
    cases r with
    | error e => cases h
    | ok entries =>
      cases h
      exact ⟨out, d', entries, rfl, congrArg Prod.fst hmerge, rfl⟩

end Emit

namespace Compiler

/-- What a compilation that was necessary emits. -/
theorem compileWithin_emits {c : Compiler} {depth : Nat} {template : String} {mode : Mode}
    {d d' : Disk}
    {tree : Template} {r : Compilation} (hholds : Holds c d template tree)
    (hnew : r.recompiled = true)
    (h : exec (c.compileWithin (depth + 1) template mode) d = (.ok r, d')) :
    ∃ s, exec (emitTree (.outer c template (c.nestedWithin depth)) tree mode)
      (.initial c.options.autoescape d) = (.ok r.output, s) := by
  obtain ⟨hpath, hmust⟩ := compileWithin_ok (congrArg Prod.fst h)
  have hfile := ((compileWithin_eq_ok_iff hpath (hmust.trans hnew)).1 h).2
  obtain ⟨text, hread, hparse⟩ := hholds
  obtain ⟨s, hs, -⟩ := (compileFileWith_eq_ok_iff (compileFileWith_ok hfile).1 hread hparse).1 hfile
  exact ⟨s, hs⟩

/-- The code of the page `child`, where it extends the layout `parent` and this tree stands for
the layout's own: the tree is emitted as a layout, and its blocks are merged in the page, on the
disk on which the layout has been compiled. -/
def Renders (c : Compiler) (d : Disk) (parent child : String) (tree : Template) (code : String) :
    Prop :=
  ∃ m entries,
    (exec (Emit.layout (.outer c parent (c.nestedWithin (nestingLimit d - 2))) tree)
      (.initial c.options.autoescape d)).1 = .ok m ∧
    (exec (Emit.merge (.outer c child (c.nestedWithin (nestingLimit d - 1))))
      (.extending c.options.autoescape m
        (exec (c.nestedWithin (nestingLimit d - 1) parent .layout) d).2)).1 =
        .ok entries ∧
    code = String.join (entries.map (·.2))

theorem compile_extending_renders {c : Compiler} {d : Disk}
    {parent child path code compiled : String}
    {tree : Template} {pos : Position} (hhooks : ∀ n, c.handled (·.statement n) = none)
    (hparent : Holds c d parent tree) (hview : c.viewPath d path = parent)
    (hchild : Holds c d child [.mk (.extending (some (.str path))) pos])
    (hmust : ∀ compiled, c.compiledPath d parent .layout = .ok compiled →
      c.mustCompile d parent compiled = true)
    (hrun : (exec (c.compile child .page) d).1 = .ok ⟨.code code, compiled, true⟩) :
    c.Renders d parent child tree code := by
  obtain ⟨n, hn⟩ : ∃ n, nestingLimit d = n + 2 := ⟨2 * d.items.length + 62, rfl⟩
  rw [exec_compile, hn] at hrun
  obtain ⟨s, hemits⟩ := compileWithin_emits hchild rfl (Prod.ext hrun rfl)
  obtain ⟨_, hpage, ⟨⟩⟩ := exec_map_eq_ok.1 hemits
  obtain ⟨out, d', entries, hnested, hmerge, hcode⟩ :=
    Emit.page_extending_ok (hhooks _) (congrArg Prod.fst hpage)
  dsimp only [Emit.Env.outer] at hnested
  rw [hview] at hnested
  obtain ⟨r, hcompile, hout⟩ := exec_map_eq_ok.1 hnested
  obtain ⟨hpath, hnew⟩ := compileWithin_ok (congrArg Prod.fst hcompile)
  obtain ⟨t, hemits⟩ := compileWithin_emits hparent (hnew.symm.trans (hmust _ hpath)) hcompile
  obtain ⟨m, hlayout, hblocks⟩ := exec_map_eq_ok.1 hemits
  have hm : out.toBlocks = m := by
    rw [← hout, ← hblocks]
    rfl
  rw [hm] at hmerge
  have hdisk : (exec (c.nestedWithin (n + 1) parent .layout) d).2 = d' := congrArg Prod.snd hnested
  unfold Renders
  rw [hn, Nat.add_sub_cancel, show n + 2 - 1 = n + 1 from rfl, hdisk]
  exact ⟨m, entries, congrArg Prod.fst hlayout, hmerge, hcode⟩

/-- The code of the page does not change if the prints of the layout are pinned. -/
theorem Renders.pin {c : Compiler} {d : Disk} {parent child code : String} {tree : Template}
    (h : c.Renders d parent child tree code) (hhooks : ∀ n, c.handled (·.statement n) = none)
    (hext : ∀ y ∈ Node.statements tree, y.isExtending = false) :
    c.Renders d parent child
      (Node.pin c.options.autoescape .layout c.options.autoescape tree) code := by
  obtain ⟨m, entries, hlayout, hmerge, hcode⟩ := h
  obtain ⟨hm, hpinned⟩ := Emit.layout_pinned
    (Emit.quiet_outer c parent _) hhooks c.options.autoescape hext hlayout
  refine ⟨_, entries, hpinned, ?_, hcode⟩
  rw [Emit.merge_pinned (Emit.quiet_outer c child _) hhooks hm]
  exact hmerge

end Compiler

/-! ### A layout with a switch around a block -/

namespace Gallery

/-- Prints outside of the block and in it, under a switch in the block and under one around it. -/
def base : Template :=
  [.mk (.autoescape (some true) [
      .mk (.echo (some (.var "title"))) .unknown,
      .mk (.block "art" [
        .mk (.echo (some (.var "name"))) .unknown,
        .mk (.autoescape
          (some true) [.mk (.echo (some (.var "note"))) .unknown]) .unknown]) .unknown]) .unknown,
    .mk (.echo (some (.var "foot"))) .unknown]

/-- What a page that extends it compiles to. -/
def code : String :=
  "<?= $this->escaper->escapeHtml($title) ?><?= $name ?><?= $this->escaper->escapeHtml($note) ?><?= $foot ?>"

/-- A layout and a page that extends it. -/
def compiler (layout : Template) : Compiler :=
  { Compiler.initial with
    parse := fun text _ =>
      .ok (if text = "X" then layout else [.mk (.extending (some (.str "x"))) .unknown]) }

def disk : Disk :=
  { Disk.empty with
    items := [(["w", "x"], .file (.text "X") 1000), (["w", "y"], .file (.text "Y") 1000)] }

end Gallery

namespace Compiler

theorem eq_page_of_matches {r : Except CompileError Compilation} {code path : String}
    (h : (match r with
      | .ok ⟨.code text, p, recompiled⟩ => text == code && p == path && recompiled
      | _ => false) = true) : r = .ok ⟨.code code, path, true⟩ := by
  split at h
  · simp only [Bool.and_eq_true, beq_iff_eq] at h
    obtain ⟨⟨rfl, rfl⟩, rfl⟩ := h
    rfl
  · cases h

/-- **Escaping in a page that extends a layout.** No extension takes over a statement, the layout
extends nothing and is compiled anew, and the page holds nothing but its name. If the page compiles,
its code is that of the layout with each print pinned: outside of blocks to the setting of the
nearest switch around it, and in an outermost block to that of the nearest switch in the block,
or else to the option. Where all outermost blocks are under the setting of the option, each print
is pinned to the setting of the nearest switch around it. A pinned print is escaped if it is
pinned to that. -/
theorem compile_extending_escapes {c : Compiler} {d : Disk}
    {parent child path code compiled : String}
    {tree : Template} {pos : Position} (hhooks : ∀ n, c.handled (·.statement n) = none)
    (hparent : Holds c d parent tree) (hext : ∀ y ∈ Node.statements tree, y.isExtending = false)
    (hview : c.viewPath d path = parent)
    (hchild : Holds c d child [.mk (.extending (some (.str path))) pos])
    (hmust : ∀ compiled, c.compiledPath d parent .layout = .ok compiled →
      c.mustCompile d parent compiled = true)
    (hrun : (exec (c.compile child .page) d).1 = .ok ⟨.code code, compiled, true⟩) :
    c.Renders d parent child tree code ∧
    c.Renders d parent child
      (Node.pin c.options.autoescape .layout c.options.autoescape tree) code ∧
    (Node.blocksAt c.options.autoescape c.options.autoescape tree = true →
      c.Renders d parent child
      (Node.pin c.options.autoescape .page c.options.autoescape tree) code) ∧
    ∀ source nested mode escaped e s text, Emit.Calm s → (mode = .layout → 0 < s.blockLevel) →
      e.isSuper = false →
      (exec (Emit.stmt (.outer c source nested) mode
        (.autoescape (some escaped) [.mk (.echo (some e)) s.pos])) s).1 =
        .ok text → Emit.PrintsAs (.outer c source nested) escaped e text := by
  have hrenders := compile_extending_renders hhooks hparent hview hchild hmust hrun
  have hpinned := hrenders.pin hhooks hext
  refine ⟨hrenders, hpinned, fun hblocks => ?_,
    fun source nested mode escaped e s text hs hmode he h => ?_⟩
  · rw [← Node.pin_layout tree hblocks]
    exact hpinned
  · exact Emit.exec_print_pinned (Emit.quiet_outer c source nested) hhooks hs hmode he h

/-- The name in the block is not escaped, though the switch around the block says so. -/
theorem compile_extending_escapes_gallery :
    (exec ((Gallery.compiler Gallery.base).compile "y" .page) Gallery.disk).1 =
      .ok ⟨.code Gallery.code, "y.php", true⟩ ∧
    (Gallery.compiler Gallery.base).Renders Gallery.disk "x" "y"
      (Node.pin false .layout false Gallery.base)
      Gallery.code := by
  have hrun : (exec ((Gallery.compiler Gallery.base).compile "y" .page) Gallery.disk).1 =
      .ok ⟨.code Gallery.code, "y.php", true⟩ := eq_page_of_matches (by decide +kernel)
  have hext : ∀ y ∈ Node.statements Gallery.base, y.isExtending = false := by
    simp [Gallery.base, Node.statements, Stmt.statements, Stmt.isExtending]
  have hmust : ∀ compiled, (Gallery.compiler Gallery.base).compiledPath Gallery.disk "x" .layout =
      .ok compiled →
      (Gallery.compiler Gallery.base).mustCompile Gallery.disk "x" compiled = true := by
    rintro _ ⟨⟩
    decide +kernel
  exact ⟨hrun,
    (compile_extending_escapes (fun _ => rfl) ⟨"X", rfl, rfl⟩ hext rfl
      ⟨"Y", rfl, rfl⟩ hmust hrun).2.1⟩

/-- A switch around a block counts in a page, and is lost in a page that extends it. -/
theorem switch_around_block_lost :
    let c := Gallery.compiler [.mk (.autoescape (some true)
      [.mk (.block "b" [.mk (.echo (some (.var "x"))) .unknown]) .unknown]) .unknown]
    (exec (c.compile "x" .page) Gallery.disk).1 =
      .ok ⟨.code "<?= $this->escaper->escapeHtml($x) ?>", "x.php", true⟩ ∧
    (exec (c.compile "y" .page) Gallery.disk).1 = .ok ⟨.code "<?= $x ?>", "y.php", true⟩ :=
  ⟨eq_page_of_matches (by decide +kernel), eq_page_of_matches (by decide +kernel)⟩

end Compiler
end Stencil
