/-
# Compiled layouts are used again

A layout is compiled to a block map, which is stored as JSON, and the next compilation
reads it back. The map itself is always in order: its segments are numbered as they are
appended, and each body in it is that of a block of the tree (`BlockMap.MadeOf`). So whether
it can be read back depends only on how deeply it is nested. As long as its segments can be
numbered by words, it is one that pushing builds.

What is stored for a body is not what was read for it: lists that the source leaves out
are written as empty ones, one level deeper. A source that is nested as deeply as readers
go can therefore be stored as text that is refused, and one that stays a level below
cannot.

Key definitions: `BlockMap.MadeOf`, `Emit.Filing`, `Emit.BlockIn`, `Disk.Older`.
Key theorems: `Emit.layout_madeOf`, `BlockMap.MadeOf.depth_le`, `BlockMap.Filed.words`,
`Compiler.layout_stored`, `Compiler.compile_reads`, `compile_layout_again`.
-/
import Stencil.Proofs.Depth
import Stencil.Proofs.Stable
import Stencil.Proofs.StoredBlocks
import Stencil.Proofs.Transparency
import Stencil.Proofs.Writes

namespace Stencil

/-! ### The map of a layout -/

namespace BlockMap

/-- A map in order, of code and of bodies in `B`; its count goes on as that of any map does. -/
structure MadeOf (B : List Node → Prop) (m : BlockMap) : Prop where
  filed : m.Filed
  bodies : ∀ key ns, (key, .nodes ns) ∈ m.entries → B ns
  built : m.next < 0x10000000000000000 → m.Built

namespace MadeOf

variable {B : List Node → Prop} {m : BlockMap}

theorem empty : MadeOf B .empty := ⟨.empty, nofun, fun _ => .empty⟩

theorem append (h : MadeOf B m) (code : String) : MadeOf B (m.append code) := by
  refine ⟨h.filed.append code, fun k ns hmem => ?_, fun hnext => ?_⟩
  · rcases mem_put hmem with hmem | ⟨-, hns⟩
    · exact h.bodies k ns hmem
    · cases hns
  · have hlt : m.next + 1 < 0x10000000000000000 := hnext
    rw [← push_eq_append (by omega)]
    exact .push code (h.built (by omega))

theorem define (h : MadeOf B m) (name : String) {body : BlockBody}
    (hbody : ∀ ns, body = .nodes ns → B ns) :
    MadeOf B (m.define name body) := by
  refine ⟨h.filed.define name body, fun k ns hmem => ?_,
    fun hnext => .define name body (h.built hnext)⟩
  rcases mem_put hmem with hmem | ⟨-, hns⟩
  · exact h.bodies k ns hmem
  · exact hbody ns hns.symm

end MadeOf
end BlockMap

namespace Emit

/-- Outside of overridden blocks, a map of bodies in `B` is being registered. -/
structure Filing (B : List Node → Prop) (s : State) : Prop where
  outside : s.currentBlock = none
  blocks : s.blocks.MadeOf B

/-- The emission registers bodies in `B` only. -/
def Files {α : Type} (B : List Node → Prop) (m : EmitM α) : Prop :=
  ∀ s, Filing B s → Filing B (exec m s).2

section
variable {B : List Node → Prop} {α β : Type} {m : EmitM α}

theorem Files.bind {f : α → EmitM β} (h : Files B m) (hf : ∀ a, Files B (f a)) :
    Files B (m >>= f) := by
  intro s hs
  have hm := h s hs
  rw [exec_bind]
  rcases hr : exec m s with ⟨r, t⟩
  rw [hr] at hm
  cases r with
  | error e => exact hm
  | ok a => exact hf a t hm

/-- A change that is undone is not about blocks. -/
theorem Files.within {enter : State → State} {leave : State → State → State}
    (henter : ∀ s, Filing B s → Filing B (enter s))
    (hleave : ∀ s t, Filing B t → Filing B (leave s t))
    (h : Files B m) : Files B (Emit.within enter leave m) := by
  intro s hs
  rw [exec_within]
  exact hleave s _ (h _ (henter s hs))

theorem files_stable (c : Compiler) (source : String) (nested : String → Mode → DiskM Output) :
    Stable (.outer c source nested) (fun _ m => Files B m) B where
  pure _ _ hs := hs
  throw _ _ hs := hs
  fail _ _ hs := hs
  bind := .bind
  get_bind h s hs := by
    rw [exec_bind, exec_get]
    exact h s s hs
  note h s hs := by
    rw [exec_modify]
    exact ⟨(h s).currentBlock.trans hs.outside, by rw [h s]; exact hs.blocks⟩
  onDisk _ _ hs := ⟨hs.outside, hs.blocks⟩
  extend _ _ hs := ⟨hs.outside, hs.blocks⟩
  append code _ hs := ⟨hs.outside, hs.blocks.append code⟩
  register name body hbody _ hs := by
    refine ⟨hs.outside, hs.blocks.define name ?_⟩
    rintro ns ⟨⟩
    exact hbody
  inExpr := .within (fun _ hs => ⟨hs.outside, hs.blocks⟩) fun _ _ ht => ⟨ht.outside, ht.blocks⟩
  inLoop := .within (fun _ hs => ⟨hs.outside, hs.blocks⟩) fun _ _ ht => ⟨ht.outside, ht.blocks⟩
  inList _ _ := .within (fun _ hs => ⟨hs.outside, hs.blocks⟩) fun _ _ ht => ⟨ht.outside, ht.blocks⟩
  inStmt _ _ := .within (fun _ hs => ⟨hs.outside, hs.blocks⟩) fun _ _ ht => ⟨ht.outside, ht.blocks⟩
  inAutoescape _ _ := .within (fun _ hs => ⟨hs.outside, hs.blocks⟩) fun _ _ ht =>
    ⟨ht.outside, ht.blocks⟩
  super s hs := by
    have hsuper := quiet_outer c source nested s hs.outside
    rw [hsuper]
    exact hs

end

/-- The body of a block of the tree. -/
def BlockIn (tree : Template) (body : List Node) : Prop :=
  ∃ name, .block name body ∈ Node.statements tree

/-- The map of a layout is in order, and its bodies are those of blocks of the tree. -/
theorem layout_madeOf {c : Compiler} {source : String} {nested : String → Mode → DiskM Output}
    {tree : Template} {autoescape : Bool} {d : Disk} {m : BlockMap} {s' : State}
    (h : exec (layout (.outer c source nested) tree) (.initial autoescape d) = (.ok m, s')) :
    m.MadeOf (BlockIn tree) := by
  have hfiles : Files (BlockIn tree) (list (.outer c source nested) .layout tree) :=
    list_stable (files_stable c source nested) .layout fun name body hmem => ⟨name, hmem⟩
  have hlist := hfiles (.initial autoescape d) ⟨rfl, .empty⟩
  unfold layout at h
  rw [exec_bind] at h
  split at h
  · rename_i t hr
    rw [hr] at hlist
    rw [exec_bind, exec_get] at h
    dsimp only at h
    split at h
    · -- merged entries hold code only
      rw [exec_bind] at h
      split at h
      · rename_i entries _ _
        cases h
        exact blocksOf_induction .empty (fun _ name _ hm => hm.define name nofun)
          (fun _ code hm => hm.append code) entries
      · cases h
    · rw [exec_bind, exec_get] at h
      cases h
      exact hlist.blocks
  · cases h

end Emit

/-! ### Storing the map -/

namespace BlockMap

section
variable {m : BlockMap} {tree : Template} (h : m.MadeOf (Emit.BlockIn tree))
include h

/-- A map nests no deeper than the tree, and code nests two deep. -/
theorem MadeOf.depth_le : m.json.depth ≤ max 2 (Template.json tree).depth := by
  rw [json, Json.depth]
  refine Nat.add_le_of_le_sub (by omega) (Json.depthItems_le_iff.2 (List.forall_mem_map.2 ?_))
  rintro ⟨key, body⟩ he
  have hkey : key.member.2.depth = 0 := by cases key <;> rfl
  have hdepth : (Json.obj [key.member, body.member]).depth = body.member.2.depth + 1 := by
    simp [Json.depth, Json.depthMembers, hkey]
  show (Json.obj [key.member, body.member]).depth ≤ _
  rw [hdepth]
  cases body with
  | code code =>
    have hcode : (BlockBody.code code).member.2.depth = 0 := rfl
    omega
  | nodes ns =>
    obtain ⟨name, hblock⟩ := h.bodies key ns he
    have hpart := (Node.block_part tree hblock).depth
    show (Template.json ns).depth + 1 ≤ _
    omega

/-- The doubles of a map are doubles of the tree. -/
theorem MadeOf.double_mem {x : Float} (hx : .double x ∈ m.json.leaves) :
    .double x ∈ (Template.json tree).leaves := by
  have hevery : m.json.Every fun leaf => leaf = .double x → leaf ∈ (Template.json tree).leaves := by
    refine every_json.2 ?_
    rintro ⟨key, body⟩ he
    constructor
    · cases key <;> simp [BlockKey.member, Json.Every, Json.leaves]
    · cases body with
      | code code => simp [BlockBody.member, Json.Every, Json.leaves]
      | nodes ns =>
        obtain ⟨name, hblock⟩ := h.bodies key ns he
        exact fun leaf hleaf _ => (Node.block_part tree hblock).leaves leaf hleaf
  exact hevery _ hx rfl

end

/-- Positions before a count that goes up to the last word are words. -/
theorem Filed.words {m : BlockMap} (h : m.Filed) (hnext : m.next ≤ 0x10000000000000000) :
    ∀ k ∈ m.keys, k.Word := by
  intro key hkey
  have hafter := h.after key hkey
  cases key with
  | name n => trivial
  | position p =>
    have hlt : p + 1 ≤ m.next := hafter
    show p < _
    omega

/-- What is stored too deeply is refused. -/
theorem unread_text {m : BlockMap} (hwords : ∀ k ∈ m.keys, k.Word)
    (hdoubles : ∀ x, Json.double x ∈ m.json.leaves → Json.survives x = true)
    (hdepth : Json.maxDepth < m.json.depth) : parse? m.text = none := by
  rw [parse?, text, Json.parse?_render_too_deep hdepth (readable_json hwords hdoubles)]
  rfl

end BlockMap

/-! ### Compiling again -/

/-- The first file was changed before the second one. -/
def Disk.Older (d : Disk) (path path' : String) : Prop :=
  ∃ changed changed', d.changed? path = some changed ∧ d.changed? path' = some changed' ∧
    changed < changed'

namespace Compiler

variable {c : Compiler} {d d' : Disk} {template compiled : String} {m : BlockMap}

/-- A layout that is compiled anew is that of its tree, and is stored. -/
theorem layout_stored
    (h : exec (c.compile template .layout) d = (.ok ⟨.blocks m, compiled, true⟩, d')) :
    c.compiledPath d template .layout = .ok compiled ∧ d.SameDirs d' ∧
      d'.read compiled = .ok m.text ∧
      ∃ tree, Holds c d template tree ∧ m.MadeOf (Emit.BlockIn tree) := by
  have limit : nestingLimit d = 2 * d.items.length + 63 + 1 := rfl
  have hdirs : d.SameDirs d' := by
    have frame := (Job.frame c ⟨nestingLimit d, d, template, .layout⟩).dirs
    have hrun : Job.run c ⟨nestingLimit d, d, template, .layout⟩ =
        (.ok ⟨.blocks m, compiled, true⟩, d') :=
      (exec_compile ..).symm.trans h
    rwa [hrun] at frame
  rw [exec_compile, limit] at h
  obtain ⟨hpath, hmust⟩ := compileWithin_ok (congrArg Prod.fst h)
  have hfile := ((compileWithin_eq_ok_iff hpath hmust).1 h).2
  obtain ⟨-, text, d₁, hread, htree, hsave⟩ := compileFileWith_ok hfile
  obtain ⟨place, hplace, W, -⟩ := Disk.written_of_save? hsave
  obtain ⟨tree, s, hparse, hemit, -⟩ := compileTree_ok htree
  obtain ⟨_, hlayout, hm⟩ := exec_map_eq_ok.1 hemit
  cases hm
  exact ⟨hpath, hdirs, W.read_eq hplace, tree, ⟨text, hread, hparse⟩, Emit.layout_madeOf hlayout⟩

/-- Compiling once more reads what has been stored. -/
theorem compile_reads (halways : c.options.always = false)
    (h : exec (c.compile template .layout) d = (.ok ⟨.blocks m, compiled, true⟩, d'))
    (holder : d'.Older template compiled) :
    exec (c.compile template .layout) d' =
      match BlockMap.parse? m.text with
      | some m' => (.ok ⟨.blocks m', compiled, false⟩, d')
      | none => (.error (.invalidCache compiled), d') := by
  obtain ⟨hpath, hdirs, hread, tree, ⟨text, hsource, -⟩, -⟩ := layout_stored h
  obtain ⟨changed, written, hchanged, hwritten, hlt⟩ := holder
  have hkept : c.mustCompile d' template compiled = false := by
    simp [mustCompile, isStale, halways, hchanged, hwritten, hlt]
  have hpath' : c.compiledPath d' template .layout = .ok compiled := by
    obtain ⟨place, time, hplace, hfile⟩ := Disk.find?_of_read hsource
    have hplace' := (hdirs.locate_ok_iff template).2 hplace
    obtain ⟨item, hthere⟩ := Disk.get?_of_changed? hchanged hplace'
    rw [c.compiledPath_of_there hplace hplace' hfile hthere, hpath]
  have limit : nestingLimit d' = 2 * d'.items.length + 63 + 1 := rfl
  rw [exec_compile, limit, exec_compileWithin, hpath']
  dsimp only
  rw [if_neg (by simp [hkept]), load, hread]
  simp only [m.text_not_blank, Bool.false_eq_true, ↓reduceIte]
  cases BlockMap.parse? m.text <;> rfl

/-- The map nests at most one deeper than the source of the layout. -/
theorem layout_depth_le (hparse : c.parse = parseTree) {tree : Template}
    (htree : Holds c d template tree) (hm : m.MadeOf (Emit.BlockIn tree)) :
    ∃ text source, d.read template = .ok text ∧ Json.parse? text = some source ∧
      m.json.depth ≤ source.depth + 1 := by
  obtain ⟨text, hread, htext⟩ := htree
  rw [hparse, parseTree] at htext
  split at htext
  · rename_i t ht
    cases htext
    obtain ⟨source, hsource, hdecoded⟩ := Option.bind_eq_some_iff.1 ht
    have hdepth := Template.depth_ofJson? hdecoded
    have hpos : 0 < source.depth := by
      cases source with
      | arr items => simp [Json.depth]
      | _ => cases hdecoded
    have hmap := hm.depth_le
    exact ⟨text, source, hread, hsource, by omega⟩
  · cases htext

end Compiler

/-- **A layout that has been compiled is used again.** If its stored map is not nested too
deeply, compiling it once more gives an equal map and changes nothing; if it is, the
compiled file is refused. The map nests at most one deeper than the source does. -/
theorem compile_layout_again (c : Compiler) (template compiled : String) (m : BlockMap)
    (d d' : Disk) (halways : c.options.always = false) (hparse : c.parse = Compiler.parseTree)
    (hfirst : exec (c.compile template .layout) d = (.ok ⟨.blocks m, compiled, true⟩, d'))
    (holder : d'.Older template compiled)
    (hdoubles : ∀ tree, Holds c d template tree →
      ∀ x, .double x ∈ (Template.json tree).leaves → Json.survives x = true)
    (hnext : m.next ≤ 0x10000000000000000) :
    (m.json.depth ≤ Json.maxDepth →
      ∃ m', exec (c.compile template .layout) d' = (.ok ⟨.blocks m', compiled, false⟩, d') ∧
        m.same m' = true ∧ (m.next < 0x10000000000000000 → m'.next = m.next)) ∧
    (Json.maxDepth < m.json.depth →
      exec (c.compile template .layout) d' = (.error (.invalidCache compiled), d')) ∧
    ∃ text source, d.read template = .ok text ∧ Json.parse? text = some source ∧
      m.json.depth ≤ source.depth + 1 := by
  obtain ⟨-, -, -, tree, htree, hm⟩ := Compiler.layout_stored hfirst
  have hsurvive : ∀ x, Json.double x ∈ m.json.leaves → Json.survives x = true :=
    fun x hx => hdoubles tree htree x (hm.double_mem hx)
  have hagain := Compiler.compile_reads halways hfirst holder
  have hwords := hm.filed.words hnext
  refine ⟨fun hdepth => ?_, fun hdepth => ?_, Compiler.layout_depth_le hparse htree hm⟩
  · obtain ⟨m', hread, hsame, -, hnext'⟩ := BlockMap.read_text hwords hsurvive hm.filed.nodup hdepth
    rw [hread] at hagain
    exact ⟨m', hagain, hsame, fun hlt => hnext'.trans (hm.filed.nextAfter_keys hlt)⟩
  · rw [BlockMap.unread_text hwords hsurvive hdepth] at hagain
    exact hagain

/-! ### A shaft that is one level too deep -/

namespace Shaft

/-- Brackets around an empty array, as a source that leaves out the items. -/
def given : Nat → Json
  | 0 => Expr.tagged .array []
  | k + 1 => Expr.tagged .enclosed [("expr", given k)]

/-- Brackets around an empty array. -/
def deep : Nat → Expr
  | 0 => .array []
  | k + 1 => .enclosed (deep k)

/-- A layout whose only block prints them. -/
def source (k : Nat) : Json :=
  .arr [.obj [("type", .str "block"), ("name", .str "b"),
    ("body", .arr [.obj [("type", .str "echo"), ("expr", given k)]])]]

/-- The body of the block. -/
def body (k : Nat) : List Node := [.mk (.echo (some (deep k))) .unknown]

/-- The layout. -/
def tree (k : Nat) : Template := [.mk (.block "b" (body k)) .unknown]

theorem depth_given : ∀ k, (given k).depth = k + 1
  | 0 => rfl
  | k + 1 => by simp [given, Json.depthMembers, depth_given k]

theorem read_given (f : Float → Float) :
    ∀ k, Expr.read (k + 1) ((given k).mapDoubles f) = some (deep k)
  | 0 => rfl
  | k + 1 => by
    have ih := read_given f k
    rw [given, Expr.read_tagged _ _ (by simp)]
    simp [Expr.readFields, Json.mapMembers, Json.fields?, Json.member?, Json.required, ih, deep]

theorem read_echo (n : Nat) {j : Json} {e : Expr} (hj : j ≠ .null) (h : Expr.ofJson? j = some e) :
    Node.read (n + 1) (.obj [("type", .str "echo"), ("expr", j)]) =
      some (.mk (.echo (some e)) .unknown) := by
  have hexpr : Json.optional Expr.ofJson? (some j) = some (some e) := by
    rw [Json.optional, h]
    · rfl
    · exact hj
  show (Json.optional Expr.ofJson? (some j) >>= fun e => _) >>= _ = _
  rw [hexpr]
  rfl

theorem read_block (n : Nat) {j : Json} {x : Node} (h : Node.read n j = some x) :
    Node.read (n + 1) (.obj [("type", .str "block"), ("name", .str "b"), ("body", .arr [j])]) =
      some (.mk (.block "b" [x]) .unknown) := by
  have hbody : Json.list? (Node.read n) (.arr [j]) = some [x] := by
    rw [Json.list?, List.mapM_cons, h]
    rfl
  show (Json.list? (Node.read n) (.arr [j]) >>= fun body => _) >>= _ = _
  rw [hbody]
  rfl

theorem ofJson?_source (f : Float → Float) (k : Nat) :
    Template.ofJson? ((source k).mapDoubles f) = some (tree k) := by
  have hexpr : Expr.ofJson? ((given k).mapDoubles f) = some (deep k) := by
    rw [Expr.ofJson?, Json.depth_mapDoubles, depth_given, read_given]
  have hnull : (given k).mapDoubles f ≠ .null := by
    cases k <;> simp [given, Expr.tagged, Json.mapDoubles]
  have hblock := read_block _ (read_echo (k + 2) hnull hexpr)
  simp only [source, Json.mapDoubles, Json.mapItems, Json.mapMembers]
  rw [Template.ofJson?, Json.list?, List.mapM_cons, Node.ofJson?]
  simp [Json.depth, Json.depthMembers, Json.depthItems, Json.depth_mapDoubles, depth_given, hblock]
  rfl

theorem every_source {P : Json → Prop} (hstr : ∀ s, P (.str s)) (k : Nat) : (source k).Every P := by
  have hgiven : ∀ k, (given k).Every P := by
    intro k
    induction k with
    | zero => simp [given, Expr.every_tagged hstr]
    | succ k ih => simpa [given, Expr.every_tagged hstr] using ih
  simp [source, hstr, hgiven k]

theorem depth_source (k : Nat) : (source k).depth = k + 5 := by
  simp [source, Json.depth, Json.depthMembers, Json.depthItems, depth_given]

theorem parse?_source {k : Nat} (hk : k + 5 ≤ Json.maxDepth) :
    Json.parse? (source k).render = some ((source k).mapDoubles Json.reread) :=
  Json.parse?_render (by rwa [depth_source]) (every_source (fun _ => trivial) k)

/-- The map of the layout. -/
def blocks (k : Nat) : BlockMap := ⟨[(.name "b", .nodes (body k))], 0⟩

theorem depth_deep : ∀ k, (deep k).json.depth = k + 2
  | 0 => rfl
  | k + 1 => by simp [deep, Expr.json, Json.depthMembers, depth_deep k]

theorem depth_blocks (k : Nat) : (blocks k).json.depth = k + 6 := by
  simp [blocks, body, BlockMap.json, BlockKey.member, BlockBody.member, Template.json,
    Node.jsonList, Node.json, Stmt.members, Expr.jsonOption, Position.members, Position.unknown,
    Json.given, Json.depth, Json.depthItems, Json.depthMembers, depth_deep]

/-- A disk with the source only, which was written long ago. -/
def disk (k : Nat) : Disk :=
  { Disk.empty with items := [(["w", "t"], .file (.text (source k).render) 1000)] }

/-- The disk with the compiled file. -/
def stored (k : Nat) : Disk :=
  ((disk k).put ["w", "t%%e%%.php"] (.file (.text (blocks k).text) (disk k).now)).tick

theorem exec_layout_tree (nested : String → Mode → DiskM Output) (k : Nat) (d : Disk) :
    ∃ s, exec (Compiler.emitTree (.outer .initial "t" nested) (tree k) .layout) (.initial false d) =
      (.ok (.blocks (blocks k)), s) ∧ s.disk = d := ⟨_, rfl, rfl⟩

theorem parseTree_source {k : Nat} (hk : k + 5 ≤ Json.maxDepth) :
    Compiler.initial.parse (source k).render "t" = .ok (tree k) := by
  have reader : Compiler.initial.parse = Compiler.parseTree := rfl
  rw [reader, Compiler.parseTree, Template.parse?, parse?_source hk, Option.bind_some,
    ofJson?_source]

theorem read_source (k : Nat) : (disk k).read "t" = .ok (source k).render := rfl

/-- The layout compiles, whatever is going to be made of what is stored. -/
theorem compile_source {k : Nat} (hk : k + 5 ≤ Json.maxDepth) :
    exec (Compiler.initial.compile "t" .layout) (disk k) =
      (.ok ⟨.blocks (blocks k), "t%%e%%.php", true⟩, stored k) := by
  have limit : Compiler.nestingLimit (disk k) = 65 + 1 := rfl
  have path : Compiler.initial.compiledPath (disk k) "t" .layout = .ok "t%%e%%.php" := rfl
  have apart : Path.same "t" "t%%e%%.php" = false := by decide +kernel
  have must : Compiler.initial.mustCompile (disk k) "t" "t%%e%%.php" = true := rfl
  rw [Compiler.exec_compile, limit, Compiler.compileWithin_eq_ok_iff path must]
  refine ⟨rfl,
    (Compiler.compileFileWith_eq_ok_iff apart (read_source k) (parseTree_source hk)).2 ?_⟩
  obtain ⟨s, hemit, hdisk⟩ := exec_layout_tree (Compiler.initial.nestedWithin 65) k (disk k)
  refine ⟨s, hemit, ?_⟩
  rw [hdisk]
  rfl

theorem older (k : Nat) : (stored k).Older "t" "t%%e%%.php" := by
  have hlt : 1000 < Disk.empty.now := by decide
  exact ⟨1000, (disk k).now, rfl, rfl, hlt⟩

theorem holds_tree {k : Nat} (hk : k + 5 ≤ Json.maxDepth) : Holds .initial (disk k) "t" (tree k) :=
  ⟨_, read_source k, parseTree_source hk⟩

theorem eq_tree {k : Nat} (hk : k + 5 ≤ Json.maxDepth) {t : Template}
    (h : Holds .initial (disk k) "t" t) :
    t = tree k := by
  obtain ⟨text, hread, hparse⟩ := h
  rw [read_source] at hread
  cases hread
  rw [parseTree_source hk] at hparse
  cases hparse
  rfl

theorem every_tree {P : Json → Prop} (hstr : ∀ s, P (.str s)) (k : Nat) :
    (Template.json (tree k)).Every P := by
  have hdeep : ∀ k, (deep k).json.Every P := by
    intro k
    induction k with
    | zero => simp [deep, Expr.json, Expr.every_tagged hstr, Expr.jsonArgs]
    | succ k ih => simpa [deep, Expr.json, Expr.every_tagged hstr] using ih
  simp [tree, body, Template.json, Node.jsonList, Node.json, Stmt.members, Expr.jsonOption,
    Position.members, Position.unknown, Json.given, hstr, hdeep k]

theorem no_double (k : Nat) (x : Float) : .double x ∉ (Template.json (tree k)).leaves :=
  fun hmem => every_tree (P := (· ≠ .double x)) (fun _ => nofun) k _ hmem rfl

end Shaft

/-- A source that leaves out a field at the deepest level is read and compiled, but what is
stored for it is nested too deeply. -/
theorem compile_layout_refused :
    (Shaft.source 122).depth = Json.maxDepth ∧
      Holds .initial (Shaft.disk 122) "t" (Shaft.tree 122) ∧
      (∀ x, .double x ∉ (Template.json (Shaft.tree 122)).leaves) ∧
      exec (Compiler.initial.compile "t" .layout) (Shaft.disk 122) =
        (.ok ⟨.blocks (Shaft.blocks 122), "t%%e%%.php", true⟩, Shaft.stored 122) ∧
      (Shaft.stored 122).Older "t" "t%%e%%.php" ∧
      exec (Compiler.initial.compile "t" .layout) (Shaft.stored 122) =
        (.error (.invalidCache "t%%e%%.php"), Shaft.stored 122) := by
  have hk : 122 + 5 ≤ Json.maxDepth := by decide
  have hfirst := Shaft.compile_source hk
  have hunread : BlockMap.parse? (Shaft.blocks 122).text = none := by
    obtain ⟨-, -, -, tree, htree, hm⟩ := Compiler.layout_stored hfirst
    cases Shaft.eq_tree hk htree
    have hdoubles : ∀ x, .double x ∈ (Shaft.blocks 122).json.leaves → Json.survives x = true :=
      fun x hx => absurd (hm.double_mem hx) (Shaft.no_double 122 x)
    exact BlockMap.unread_text (hm.filed.words (Nat.zero_le _)) hdoubles
      (by rw [Shaft.depth_blocks]; decide)
  have hagain := Compiler.compile_reads rfl hfirst (Shaft.older 122)
  rw [hunread] at hagain
  exact ⟨Shaft.depth_source 122, Shaft.holds_tree hk, Shaft.no_double 122, hfirst,
    Shaft.older 122, hagain⟩

/-- A shaft one level higher is stored as deeply as readers go, and is used again. -/
theorem compile_layout_again_shaft :
    (Shaft.blocks 121).json.depth = Json.maxDepth ∧
      exec (Compiler.initial.compile "t" .layout) (Shaft.disk 121) =
        (.ok ⟨.blocks (Shaft.blocks 121), "t%%e%%.php", true⟩, Shaft.stored 121) ∧
      ∃ m', exec (Compiler.initial.compile "t" .layout) (Shaft.stored 121) =
          (.ok ⟨.blocks m', "t%%e%%.php", false⟩, Shaft.stored 121) ∧
        (Shaft.blocks 121).same m' = true := by
  have hk : 121 + 5 ≤ Json.maxDepth := by decide
  have hdepth : (Shaft.blocks 121).json.depth = Json.maxDepth := Shaft.depth_blocks 121
  have hfirst := Shaft.compile_source hk
  have hdoubles : ∀ tree, Holds .initial (Shaft.disk 121) "t" tree →
      ∀ x, .double x ∈ (Template.json tree).leaves → Json.survives x = true := by
    intro tree htree x hx
    cases Shaft.eq_tree hk htree
    exact absurd hx (Shaft.no_double 121 x)
  obtain ⟨hagain, -, -⟩ :=
    compile_layout_again _ _ _ _ _ _ rfl rfl hfirst (Shaft.older 121) hdoubles (Nat.zero_le _)
  obtain ⟨m', hsecond, hsame, -⟩ := hagain hdepth.le
  exact ⟨hdepth, hfirst, m', hsecond, hsame⟩

end Stencil
