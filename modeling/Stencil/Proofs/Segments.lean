/-
# The segments of a layout

A layout that names no template is cut at its outermost blocks into runs. Its segments
are the codes of the runs that have any, each what the run compiles to as a page of its
own. A block stands among them where its name is defined first, with the body that is
defined last. What is written while a layout is compiled alternates between the code of a
run and the block after it; `Tally` says what a map holds after any writes, and a layout
is the case where they alternate like this.

Key definitions: `Node.runs`, `Node.outerBlocks`, `Node.Segmented`, `Emit.Tally`.
Key theorems: `Emit.tally_foldl`, `Plain.gather?_runs`, `Compiler.compileSource_segmented`.
-/
import Mathlib.Data.List.Forall2
import Mathlib.Data.List.Induction
import Stencil.Proofs.Carried
import Stencil.Proofs.Pages
import Stencil.Proofs.Registered

namespace Stencil

/-! ### Runs between blocks -/

/-- The name and the body of a block. -/
def Stmt.block? : Stmt → Option (String × List Node)
  | .block name body => some (name, body)
  | _ => none

/-- The outermost blocks, in order. -/
def Node.outerBlocks (ns : List Node) : List (String × List Node) := ns.filterMap (·.stmt.block?)

/-- The longest runs of outermost statements with no block among them, in order. One
is empty where two blocks meet. -/
def Node.runs (ns : List Node) : List (List Node) := ns.splitOnP (·.stmt.isBlock)

namespace Node

theorem runs_append_block (before after : List Node) (name : String) (body : List Node)
    (pos : Position) :
    runs (before ++ .mk (.block name body) pos :: after) = runs before ++ runs after :=
  List.splitOnP_append_cons before after rfl

theorem runs_cons_block (name : String) (body : List Node) (pos : Position) (ns : List Node) :
    runs (.mk (.block name body) pos :: ns) = [] :: runs ns := runs_append_block [] ns name body pos

/-- A statement that is no block is in the first run. -/
theorem runs_cons {n : Node} (hn : n.stmt.isBlock = false) (ns : List Node) :
    ∃ run rest, runs ns = run :: rest ∧ runs (n :: ns) = (n :: run) :: rest := by
  obtain ⟨run, rest, hrun⟩ := List.exists_cons_of_ne_nil (List.splitOnP_ne_nil (·.stmt.isBlock) ns)
  refine ⟨run, rest, hrun, ?_⟩
  rw [runs, List.splitOnP_cons_eq_if_modifyHead, hn, hrun]
  rfl

theorem outerBlocks_cons {n : Node} (hn : n.stmt.isBlock = false) (ns : List Node) :
    outerBlocks (n :: ns) = outerBlocks ns := by
  obtain ⟨s, pos⟩ := n
  cases s with
  | block name body => cases hn
  | _ => rfl

theorem outerBlocks_append (xs ys : List Node) :
    outerBlocks (xs ++ ys) = outerBlocks xs ++ outerBlocks ys :=
  List.filterMap_append

/-- There is one run more than there are blocks. -/
theorem length_runs (ns : List Node) : (runs ns).length = (outerBlocks ns).length + 1 := by
  induction ns with
  | nil => rfl
  | cons n ns ih =>
    cases hn : n.stmt.isBlock with
    | true =>
      obtain ⟨s, pos⟩ := n
      obtain ⟨name, body, rfl⟩ := Stmt.eq_block hn
      rw [runs_cons_block, List.length_cons, ih]
      rfl
    | false =>
      obtain ⟨run, rest, hrun, hcons⟩ := runs_cons hn ns
      rw [outerBlocks_cons hn, ← ih, hcons, hrun]
      rfl

/-- The runs one after another are the statements that are no blocks. -/
theorem flatten_runs (ns : List Node) : (runs ns).flatten = ns.filter fun n => !n.stmt.isBlock := by
  induction ns with
  | nil => rfl
  | cons n ns ih =>
    cases hn : n.stmt.isBlock with
    | true =>
      obtain ⟨s, pos⟩ := n
      obtain ⟨name, body, rfl⟩ := Stmt.eq_block hn
      rw [runs_cons_block, List.flatten_cons, List.nil_append, ih,
        List.filter_cons_of_neg (by simp [hn])]
    | false =>
      obtain ⟨run, rest, hrun, hcons⟩ := runs_cons hn ns
      rw [hcons, List.filter_cons_of_pos (by simp [hn]), ← ih, hrun]
      rfl

theorem sublist_of_mem_runs {run ns : List Node} (h : run ∈ runs ns) :
    run.Sublist (ns.filter fun n => !n.stmt.isBlock) :=
  flatten_runs ns ▸ List.sublist_flatten_of_mem h

theorem openMacros_eq (ns : List Node) :
    openMacros ns = macroNames (ns.filter fun n => !n.stmt.isBlock) := by
  induction ns with
  | nil => rfl
  | cons n ns ih =>
    obtain ⟨s, pos⟩ := n
    cases hs : s.isBlock <;> simp [openMacros, stmt, hs, ih]

theorem statements_sublist {xs ys : List Node} (h : xs.Sublist ys) :
    (statements xs).Sublist (statements ys) := by
  induction h with
  | slnil => exact .slnil
  | cons n _ ih =>
    obtain ⟨s, pos⟩ := n
    exact ih.trans (List.sublist_append_right _ _)
  | cons_cons n _ ih =>
    obtain ⟨s, pos⟩ := n
    exact ih.append_left _

end Node

/-! ### What a map holds -/

namespace BlockMap

/-- The entries that are segments, in order. -/
def segments (m : BlockMap) : List (BlockKey × BlockBody) :=
  m.entries.filter fun e => e.1.position?.isSome

theorem segments_define (m : BlockMap) (name : String) (body : BlockBody) :
    (m.define name body).segments = m.segments := by
  show (put _ _ m.entries).filter _ = m.entries.filter _
  induction m.entries with
  | nil => rfl
  | cons e rest ih =>
    obtain ⟨key, b⟩ := e
    rw [put]
    split
    · rename_i hkey
      subst hkey
      rfl
    · rw [List.filter_cons, List.filter_cons, ih]

theorem mem_names {m : BlockMap} {name : String} : name ∈ m.names ↔ .name name ∈ m.keys := by
  unfold names
  rw [List.mem_filterMap]
  constructor
  · rintro ⟨key, hkey, hname⟩
    cases key with
    | name n => cases hname; exact hkey
    | position p => cases hname
  · exact fun h => ⟨_, h, rfl⟩

theorem names_define (m : BlockMap) (name : String) (body : BlockBody) :
    (m.define name body).names = if name ∈ m.names then m.names else m.names ++ [name] := by
  split
  · rename_i h
    show ((put _ _ m.entries).map (·.1)).filterMap _ = _
    rw [keys_put (mem_names.1 h)]
    rfl
  · rename_i h
    show ((put _ _ m.entries).map (·.1)).filterMap _ = _
    rw [put_eq_append (mt mem_names.2 h), List.map_append, List.filterMap_append]
    rfl

end BlockMap

namespace Emit

/-- The code of a segment. -/
def Write.code? : Write → Option String
  | .segment code => if code = "" then none else some code
  | .define _ _ => none

/-- The name and the body that are defined. -/
def Write.block? : Write → Option (String × List Node)
  | .segment _ => none
  | .define name body => some (name, body)

/-- What the map holds after these writes: codes that are not empty are numbered in order,
and a name keeps its place and has the last body. -/
structure Tally (ws : List Write) (m : BlockMap) : Prop where
  numbered : m.Numbered
  segments : m.segments = (ws.filterMap Write.code?).zipIdx.map fun p => (.position p.2, .code p.1)
  next : m.next = (ws.filterMap Write.code?).length
  names : m.names = ((ws.filterMap Write.block?).map (·.1)).eraseDups
  named : ∀ name, m.named? name = (lastBody? name (ws.filterMap Write.block?)).map .nodes

theorem tally_empty : Tally [] .empty := ⟨.empty, rfl, rfl, rfl, fun _ => rfl⟩

section
variable {ws : List Write} {m : BlockMap}

theorem Tally.segment (h : Tally ws m) (code : String) :
    Tally (ws ++ [.segment code]) (m.segment code) := by
  have hblocks : (ws ++ [Write.segment code]).filterMap Write.block? =
      ws.filterMap Write.block? := by
    rw [List.filterMap_append]
    exact List.append_nil _
  by_cases hcode : code = ""
  · have hcodes : (ws ++ [Write.segment code]).filterMap Write.code? =
        ws.filterMap Write.code? := by
      simp [Write.code?, hcode]
    have hsame : m.segment code = m := if_pos hcode
    rw [hsame]
    exact ⟨h.numbered, hcodes ▸ h.segments, hcodes ▸ h.next, hblocks ▸ h.names, hblocks ▸ h.named⟩
  · have hcodes : (ws ++ [Write.segment code]).filterMap Write.code? =
        ws.filterMap Write.code? ++ [code] := by
      simp [Write.code?, hcode]
    have hnamed := m.named?_segment code
    have happend : m.segment code = m.append code := if_neg hcode
    rw [happend] at hnamed ⊢
    have hentries := h.numbered.append_entries code
    refine ⟨h.numbered.append code, ?_, ?_, ?_, fun n => ?_⟩
    · unfold BlockMap.segments
      rw [hentries, List.filter_append, hcodes, List.zipIdx_append, List.map_append, ← h.segments,
        Nat.zero_add, ← h.next]
      rfl
    · rw [hcodes, List.length_append, ← h.next]
      rfl
    · rw [hblocks, ← h.names]
      unfold BlockMap.names BlockMap.keys
      rw [hentries, List.map_append, List.filterMap_append]
      exact List.append_nil _
    · rw [hnamed, hblocks, h.named]

theorem Tally.define (h : Tally ws m) (name : String) (body : List Node) :
    Tally (ws ++ [.define name body]) (m.define name (.nodes body)) := by
  have hcodes : (ws ++ [Write.define name body]).filterMap Write.code? =
      ws.filterMap Write.code? := by
    simp [Write.code?]
  have hblocks : (ws ++ [Write.define name body]).filterMap Write.block? =
      ws.filterMap Write.block? ++ [(name, body)] := by
    simp [Write.block?]
  refine ⟨h.numbered.define name _, ?_, ?_, ?_, fun n => ?_⟩
  · rw [BlockMap.segments_define, hcodes, h.segments]
  · rw [hcodes, ← h.next]
    rfl
  · rw [BlockMap.names_define, hblocks, List.map_append, List.eraseDups_append, ← h.names]
    by_cases hname : name ∈ m.names
    · have hmem := List.mem_eraseDups.1 (h.names ▸ hname)
      simp [hname, List.removeAll, hmem]
    · have hmem := mt List.mem_eraseDups.2 (h.names ▸ hname)
      simp [hname, List.removeAll, hmem, List.eraseDups_cons]
  · rw [BlockMap.named?_define, hblocks, lastBody?_append, h.named]
    by_cases hn : n = name <;> simp [lastBody?, lookup_cons_ite, hn]

/-- Each write is one more that the map holds. -/
theorem Tally.write (h : Tally ws m) (w : Write) : Tally (ws ++ [w]) (w.to m) := by
  cases w with
  | segment code => exact h.segment code
  | define name body => exact h.define name body

theorem tally_foldl (ws : List Write) : Tally ws (ws.foldl Write.to .empty) := by
  induction ws using List.reverseRecOn with
  | nil => exact tally_empty
  | append_singleton ws w ih =>
    rw [List.foldl_append]
    exact ih.write w

/-- What is there stays in front of what is added. -/
theorem keys_prefix_write (hm : m.Numbered) (w : Write) : m.keys <+: (w.to m).keys := by
  cases w with
  | segment code =>
    show m.keys <+: (m.segment code).keys
    unfold BlockMap.segment
    split
    · exact List.prefix_rfl
    · unfold BlockMap.keys
      rw [hm.append_entries, List.map_append]
      exact List.prefix_append _ _
  | define name body =>
    show m.keys <+: (BlockMap.put _ _ m.entries).map (·.1)
    by_cases hname : .name name ∈ m.keys
    · rw [BlockMap.keys_put hname]
      exact List.prefix_rfl
    · rw [BlockMap.put_eq_append hname, List.map_append]
      exact List.prefix_append _ _

theorem keys_prefix_foldl (hm : m.Numbered) (ws : List Write) :
    m.keys <+: (ws.foldl Write.to m).keys := by
  induction ws generalizing m with
  | nil => exact List.prefix_rfl
  | cons w ws ih => exact (keys_prefix_write hm w).trans (ih (numbered_write hm w))

/-- A name stands after the segments that are written before it is defined first. -/
theorem foldl_place {before after : List Write} {name : String} {body : List Node}
    (hnew : name ∉ (before.filterMap Write.block?).map (·.1)) :
    ∃ left right, ((before ++ .define name body :: after).foldl Write.to .empty).keys =
        left ++ .name name :: right ∧
      BlockKey.positions left = List.range (before.filterMap Write.code?).length := by
  have hbefore := tally_foldl before
  have hnext := hbefore.next
  rw [List.foldl_append, List.foldl_cons]
  generalize before.foldl Write.to .empty = m at hbefore hnext ⊢
  have hkey : .name name ∉ m.keys := by
    rw [← BlockMap.mem_names, hbefore.names, List.mem_eraseDups]
    exact hnew
  have hkeys : ((Write.define name body).to m).keys = m.keys ++ [.name name] := by
    show (BlockMap.put _ _ m.entries).map (·.1) = _
    rw [BlockMap.put_eq_append hkey, List.map_append]
    rfl
  obtain ⟨right, hright⟩ := keys_prefix_foldl
    (numbered_write hbefore.numbered (.define name body)) after
  refine ⟨m.keys, right, ?_, ?_⟩
  · rw [← hright, hkeys, List.append_assoc]
    rfl
  · rw [hbefore.numbered.positions, hnext, List.range_eq_range']

end

/-! ### Writes that alternate -/

/-- Segments with blocks between them, in turn. -/
def alternate : List String → List (String × List Node) → List Write
  | [], _ => []
  | code :: _, [] => [.segment code]
  | code :: codes, (name, body) :: blocks =>
    .segment code :: .define name body :: alternate codes blocks

theorem alternate_append {bs : List (String × List Node)} {name : String} {body : List Node}
    {cs : List (String × List Node)} {more : List String} :
    ∀ {codes : List String}, codes.length = bs.length + 1 →
      alternate (codes ++ more) (bs ++ (name, body) :: cs) =
        alternate codes bs ++ .define name body :: alternate more cs := by
  induction bs with
  | nil =>
    intro codes hlen
    obtain ⟨code, rfl⟩ := List.length_eq_one_iff.1 hlen
    rfl
  | cons b bs ih =>
    intro codes hlen
    obtain ⟨n, ns⟩ := b
    cases codes with
    | nil => cases hlen
    | cons code codes =>
      have hrest := ih (Nat.succ.inj hlen)
      simp only [List.cons_append, alternate, hrest]

theorem filterMap_alternate {bs : List (String × List Node)} : ∀ {codes : List String},
    codes.length = bs.length + 1 →
      (alternate codes bs).filterMap Write.code? = codes.filter (· ≠ "") ∧
        (alternate codes bs).filterMap Write.block? = bs := by
  induction bs with
  | nil =>
    intro codes hlen
    obtain ⟨code, rfl⟩ := List.length_eq_one_iff.1 hlen
    by_cases hcode : code = "" <;> simp [alternate, Write.code?, Write.block?, hcode]
  | cons b bs ih =>
    intro codes hlen
    obtain ⟨n, ns⟩ := b
    cases codes with
    | nil => cases hlen
    | cons code codes =>
      obtain ⟨hcodes, hblocks⟩ := ih (Nat.succ.inj hlen)
      by_cases hcode : code = "" <;>
        simp [alternate, List.filterMap_cons, Write.code?, Write.block?, hcode, hcodes, hblocks]

end Emit

/-- The map is the nodes cut at their outermost blocks, given the code of each run. -/
structure Node.Segmented (ns : List Node) (codes : List String) (m : BlockMap) : Prop where
  /-- Codes that are not empty are the segments, numbered in order. -/
  segments : m.segments = (codes.filter (· ≠ "")).zipIdx.map fun p => (.position p.2, .code p.1)
  /-- Each name is there once, in the order of their first blocks. -/
  names : m.names = ((Node.outerBlocks ns).map (·.1)).eraseDups
  /-- Under a name is the body of its last block. -/
  bodies : ∀ name, m.named? name = (lastBody? name (Node.outerBlocks ns)).map .nodes
  /-- A name stands after the segments of the runs before its first block. -/
  place : ∀ (before after : List Node) (name : String) (body : List Node) (pos : Position),
    ns = before ++ .mk (.block name body) pos :: after →
    name ∉ (Node.outerBlocks before).map (·.1) →
    ∃ left right, m.keys = left ++ .name name :: right ∧
      BlockKey.positions left = List.range
        ((codes.take (Node.runs before).length).filter (· ≠ "")).length

namespace Emit

/-- Writes that alternate between the codes of the runs and the blocks. -/
theorem segmented_alternate {ns : List Node} {codes : List String}
    (hlen : codes.length = (Node.runs ns).length) :
    Node.Segmented ns codes ((alternate codes (Node.outerBlocks ns)).foldl Write.to .empty) := by
  have htally := tally_foldl (alternate codes (Node.outerBlocks ns))
  obtain ⟨hcodes, hblocks⟩ := filterMap_alternate (hlen.trans (Node.length_runs ns))
  have hsegments := htally.segments
  have hnames := htally.names
  have hnamed := htally.named
  rw [hcodes] at hsegments
  rw [hblocks] at hnames hnamed
  refine ⟨hsegments, hnames, hnamed, ?_⟩
  rintro before after name body pos rfl hnew
  have hbefore : (codes.take (Node.runs before).length).length =
      (Node.outerBlocks before).length + 1 := by
    rw [Node.runs_append_block, List.length_append] at hlen
    rw [List.length_take, ← Node.length_runs]
    omega
  obtain ⟨hfirst, hdefined⟩ := filterMap_alternate hbefore
  have hsplit : alternate codes (Node.outerBlocks (before ++ .mk (.block name body) pos :: after)) =
      alternate (codes.take (Node.runs before).length) (Node.outerBlocks before) ++
        .define name body :: alternate (codes.drop (Node.runs before).length)
          (Node.outerBlocks after) := by
    rw [← alternate_append hbefore, List.take_append_drop, Node.outerBlocks_append]
    rfl
  rw [hsplit, ← hfirst]
  exact foldl_place (hdefined.symm ▸ hnew)

end Emit

/-- Gathering the outermost statements of a layout writes the code of each run and each
block in turn. -/
theorem Plain.gather?_runs {S : Site} {a : Bool} {p : String × BlockMap} (ns : List Node) :
    ∀ (code : String) (m : BlockMap), gather? S (.outermost a) ns code m = some p →
    ∃ first rest,
      List.Forall₂ (fun run code => nodes? S (.outermost a) run = some code) (Node.runs ns)
      (first :: rest) ∧
      p.2.segment p.1 =
        (Emit.alternate ((code ++ first) :: rest) (Node.outerBlocks ns)).foldl Emit.Write.to m := by
  induction ns with
  | nil =>
    intro code m h
    cases h
    refine ⟨"", [], .cons rfl .nil, ?_⟩
    rw [String.append_empty]
    rfl
  | cons n ns ih =>
    intro code m h
    obtain ⟨s, pos⟩ := n
    cases hs : s.isBlock with
    | true =>
      obtain ⟨name, body, rfl⟩ := Stmt.eq_block hs
      obtain ⟨first, rest, hcodes, hm⟩ := ih "" _ h
      refine ⟨"", first :: rest, ?_, ?_⟩
      · rw [Node.runs_cons_block]
        exact .cons rfl hcodes
      · rw [hm, String.append_empty, String.empty_append]
        rfl
    | false =>
      rw [gather?_cons hs] at h
      obtain ⟨more, hmore, h⟩ := Option.bind_eq_some_iff.1 h
      obtain ⟨first, rest, hcodes, hm⟩ := ih (code ++ more) m h
      obtain ⟨run, runs, hrun, hcons⟩ := Node.runs_cons (n := .mk s pos) hs ns
      rw [hrun] at hcodes
      obtain ⟨hfirst, hrest⟩ := List.forall₂_cons.1 hcodes
      refine ⟨more ++ first, rest, ?_, ?_⟩
      · rw [hcons]
        refine .cons ?_ hrest
        rw [nodes?, hmore, Emit.using_outermost, hfirst]
        rfl
      · rw [hm, Node.outerBlocks_cons (n := .mk s pos) hs, String.append_assoc]

namespace Compiler

theorem exec_compileSource_layout {c : Compiler} {d : Disk} {text source : String} {tree : Template}
    (hparse : c.parse text source = .ok tree) :
    (exec (c.compileSource text source .layout) d).1 =
      (exec (Emit.layout (.outer c source c.nested) tree)
        (.initial c.options.autoescape d)).1.map .blocks := by
  rw [compileSource, exec_compileTree, hparse]
  dsimp only
  rw [exec_emit, emitTree, exec_map]

/-- A layout that extends and includes nothing, and whose blocks are all outermost or inside
of these, is cut at its outermost blocks. The runs between them compile on their own, and
their codes are its segments. -/
theorem compileSource_segmented {c : Compiler} {d : Disk} {text source : String} {tree : Template}
    {m : BlockMap} (hext : c.extensions = []) (hparse : c.parse text source = .ok tree)
    (hlinks : Node.links tree = []) (hblocks : Node.BlocksOutermost tree)
    (h : (exec (c.compileSource text source .layout) d).1 = .ok (.blocks m)) :
    ∃ codes, List.Forall₂ (fun run code => ∀ d', c.pageOf source d' run = .ok code)
      (Node.runs tree) codes ∧
      Node.Segmented tree codes m := by
  have hlayout := Emit.layout_gathers source c.nested c.options.autoescape d hext hlinks hblocks
  rw [exec_compileSource_layout hparse] at h
  have hm :
      (exec (Emit.layout (.outer c source c.nested) tree) (.initial c.options.autoescape d)).1 =
        .ok m := by
    cases hr :
      (exec (Emit.layout (.outer c source c.nested) tree) (.initial c.options.autoescape d)).1 with
    | error e => rw [hr] at h; cases h
    | ok m' => rw [hr] at h; cases h; rfl
  obtain ⟨hgather, hnodup⟩ := hlayout.1 m _ (Prod.ext hm rfl)
  obtain ⟨p, hp, rfl⟩ := Option.map_eq_some_iff.1 hgather
  obtain ⟨first, rest, hcodes, hwritten⟩ := Plain.gather?_runs tree "" .empty hp
  rw [String.empty_append] at hwritten
  refine ⟨first :: rest, ?_, hwritten ▸ Emit.segmented_alternate hcodes.length_eq.symm⟩
  have hruns : ∀ run ∈ Node.runs tree, Node.links run = [] ∧ (Node.macroNames run).Nodup := by
    intro run hrun
    have hopen := Node.sublist_of_mem_runs hrun
    have hlinked : (Node.links run).Sublist (Node.links tree) :=
      (Node.statements_sublist (hopen.trans List.filter_sublist)).filterMap _
    rw [Node.openMacros_eq] at hnodup
    exact ⟨List.sublist_nil.1 (hlinks ▸ hlinked),
      hnodup.sublist ((Node.statements_sublist hopen).filterMap _)⟩
  refine ((List.forall₂_and_left _ _).2 ⟨hruns, hcodes⟩).imp fun run code hrun d' => ?_
  exact (pageOf_eq_ok_iff hext hrun.1.1).2 ⟨hrun.2, hrun.1.2⟩

end Compiler

namespace Frieze

/-- Two blocks meet, the first has its name again later, and the second holds a block and a
macro. The last run is a loop that uses its record. -/
def tree : Template :=
  [.mk (.text "top") .unknown,
    .mk (.block "rosette" [.mk (.text "1") .unknown]) .unknown,
    .mk (.block "palm" [.mk (.block "leaf" []) .unknown,
      .mk (.macroDef "vein" [] []) .unknown]) .unknown,
    .mk (.macroDef "vein" [] [.mk (.text "v") .unknown]) .unknown,
    .mk (.block "rosette" [.mk (.text "2") .unknown]) .unknown,
    .mk (.forIn "x" none
      (some (.var "xs")) none [.mk (.echo (some (.var "loop"))) .unknown]) .unknown]

def compiler : Compiler := { Compiler.initial with parse := fun _ _ => .ok tree }

end Frieze

/-- A layout of four runs, one of them empty. -/
theorem Compiler.compileSource_segmented_frieze :
    Node.BlocksOutermost Frieze.tree ∧
      ∃ m codes, (exec (Frieze.compiler.compileSource "" "x" .layout) .empty).1 = .ok (.blocks m) ∧
        List.Forall₂ (fun run code => ∀ d', Frieze.compiler.pageOf "x" d' run = .ok code)
          (Node.runs Frieze.tree) codes ∧
        Node.Segmented Frieze.tree codes m ∧ m.names = ["rosette", "palm"] := by
  have hlinks : Node.links Frieze.tree = [] := by decide +kernel
  have hblocks : Node.BlocksOutermost Frieze.tree := by
    unfold Node.BlocksOutermost
    decide +kernel
  obtain ⟨m, hm⟩ := Option.isSome_iff_exists.1
    (show ((Plain.gather? (Frieze.compiler.site "x") (.outermost false) Frieze.tree "" .empty).map
      fun p => p.2.segment p.1).isSome = true by decide +kernel)
  have hlayout := Emit.layout_gathers
    (c := Frieze.compiler) "x" Frieze.compiler.nested false .empty rfl
    hlinks hblocks
  obtain ⟨t, ht, -⟩ := hlayout.2 m hm (by decide +kernel)
  have hok : (exec (Frieze.compiler.compileSource "" "x" .layout) .empty).1 = .ok (.blocks m) := by
    rw [exec_compileSource_layout rfl]
    exact congrArg (fun r => r.1.map Output.blocks) ht
  obtain ⟨codes, hcodes, hsegmented⟩ := compileSource_segmented rfl rfl hlinks hblocks hok
  exact ⟨hblocks, m, codes, hok, hcodes, hsegmented, hsegmented.names.trans (by decide +kernel)⟩

end Stencil
