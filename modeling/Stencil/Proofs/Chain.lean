/-
# Chains of templates

A template extends another one, which extends a third, and so on to one that
extends nothing. Compiled as layouts they all have the same keys in the same
order. An entry that a template does not redefine keeps its code. One that it
redefines has the code of the template's last body for it, where printing the
parent's block gives the code the entry had one level below.

Level 0 of a chain is the template that extends nothing. It keeps its blocks as
nodes, which are compiled at level 1; from there on there is only code.

Key definitions: `Chain`.
Key theorems: `Chain.merged`, `Chain.keys_eq`, `Chain.entry_page`, `Chain.levels`.
-/
import Stencil.Proofs.Merging

namespace Stencil

mutual

/-- Putting a statement that names no template in place of prints adds no link. -/
theorem Stmt.links_plug {p : Option Stmt} (hp : ∀ r, p = some r → r.links = []) :
    ∀ s : Stmt, s.links = [] → (s.plug p).links = []
  | .echo none, _ => by simp [Stmt.plug, Stmt.links, Stmt.statements, Stmt.link?]
  | .echo (some e), h => by
    rw [Stmt.plug]
    split
    · cases hr : p with
      | none => exact h
      | some r => exact hp r hr
    · exact h
  | .ifThen c b e, h => by
    simp only [Stmt.links_ifThen, List.append_eq_nil_iff] at h
    rw [Stmt.plug, Stmt.links_ifThen, Node.links_plug hp b h.1]
    cases e with
    | none => rfl
    | some e => exact Node.links_plug hp e h.2
  | .switchOn _ b, h => Node.links_plug hp b h
  | .forIn _ _ _ _ b, h => Node.links_plug hp b h
  | .block _ b, h => Node.links_plug hp b h
  | .macroDef _ _ b, h => Node.links_plug hp b h
  | .autoescape _ b, h => Node.links_plug hp b h
  | .cached _ _ b, h => Node.links_plug hp b h
  | .text _, h | .elseIf _, h | .caseOf _, h | .caseDefault, h | .forElse, h | .assign _, h
  | .extending _, h | .including .., h | .evaluate _, h | .returning _, h | .continueLoop, h
  | .breakLoop, h | .unknown, h => by simpa [Stmt.plug] using h

theorem Node.links_plug {p : Option Stmt} (hp : ∀ r, p = some r → r.links = []) :
    ∀ ns : List Node, Node.links ns = [] → Node.links (Node.plug p ns) = []
  | [], _ => rfl
  | .mk s pos :: rest, h => by
    rw [Node.links_cons, List.append_eq_nil_iff] at h
    rw [Node.plug, Node.links_cons, Stmt.links_plug hp s h.1, Node.links_plug hp rest h.2]
    rfl

end

/-- Templates `t 0` to `t n` on a disk, each of which extends the one before it. The
tree of `t (i + 1)` is the statement that extends `t i`, and then `own (i + 1)`. As
a layout, `t i` compiles anew to `m i`. -/
structure Chain (c : Compiler) (d : Disk) (n : Nat) (t : Nat → String) (tree : Nat → Template)
    (own : Nat → List Node) (m : Nat → BlockMap) : Prop where
  extensions : c.extensions = []
  super : c.functions.lookup "super" = none
  holds : ∀ i ≤ n, Holds c d (t i) (tree i)
  root : Node.links (tree 0) = []
  extending : ∀ i < n, ∃ path pos, c.viewPath d path = t i ∧
    tree (i + 1) = .mk (.extending (some (.str path))) pos :: own (i + 1)
  links : ∀ i < n, Node.links (own (i + 1)) = []
  blocks : ∀ i < n, Node.BlocksOutermost (own (i + 1))
  prints : ∀ i < n, Node.PrintsSuper (own (i + 1))
  compiled : ∀ i ≤ n, ∃ path, (exec (c.compile (t i) .layout) d).1 = .ok ⟨.blocks (m i), path, true⟩

namespace Emit

/-- A layout that extends another one has compiled it. -/
theorem nested_of_layout_extending {c : Compiler} {source : String}
    {nested : String → Mode → DiskM Output} (hext : c.extensions = []) {path : String}
    {pos : Position} {rest : List Node} {a : Bool} {d : Disk} {m : BlockMap} {s : State}
    (h : exec (layout (.outer c source nested) (.mk (.extending (some (.str path))) pos :: rest))
      (.initial a d) = (.ok m, s)) :
    ∃ out d', exec (nested (c.viewPath d path) .layout) d = (.ok out, d') := by
  obtain ⟨code, s₁, hlist, -⟩ := exec_bind_eq_ok.1 h
  unfold list sequence inList at hlist
  rw [if_neg (by simp), exec_bind, exec_get] at hlist
  obtain ⟨p, s₂, hnodes, -⟩ := exec_bind_eq_ok.1 hlist
  rw [exec_within, exec_nodes_extending (Compiler.handled_eq_none hext _)] at hnodes
  have hdisk : (State.initial a d).disk = d := rfl
  dsimp only [Env.outer] at hnodes
  rw [hdisk] at hnodes
  rcases hn : exec (nested (c.viewPath d path) .layout) d with ⟨r, d'⟩
  cases r with
  | error e =>
    rw [hn] at hnodes
    cases hnodes
  | ok out => exact ⟨out, d', rfl⟩

theorem links_entryNodes {c : Compiler} {parent : BlockMap}
    {redefined : String → Option (List Node)}
    (M : Mergeable c parent redefined) {key : BlockKey} {inherited : BlockBody}
    (hmem : (key, inherited) ∈ parent.entries) :
    Node.links (entryNodes redefined key inherited) = [] := by
  have hinherited : Node.links inherited.asNodes = [] := by
    cases inherited with
    | code text => rfl
    | nodes ns => exact M.inherited key ns hmem
  cases key with
  | position p => exact hinherited
  | name name =>
    cases hbody : redefined name with
    | none =>
      rw [entryNodes_inherited inherited hbody]
      exact hinherited
    | some body =>
      rw [entryNodes_redefined inherited hbody]
      refine Node.links_plug ?_ body (M.links name body hbody)
      rintro _ ⟨⟩
      cases inherited with
      | code text => rfl
      | nodes ns => exact hinherited

theorem nodup_of_mergedMacros {redefined : String → Option (List Node)} {key : BlockKey}
    {inherited : BlockBody} : ∀ {entries : List (BlockKey × BlockBody)},
    (mergedMacros redefined entries).Nodup → (key, inherited) ∈ entries →
    (Node.macroNames (entryNodes redefined key inherited)).Nodup
  | (key', inherited') :: rest, hnodup, hmem => by
    rw [mergedMacros, List.nodup_append] at hnodup
    rcases List.mem_cons.1 hmem with he | hmem
    · cases he
      exact hnodup.1
    · exact nodup_of_mergedMacros hnodup.2.1 hmem

end Emit

/-- The statements of the last block of a name are among those of the nodes. -/
theorem Node.statements_lastBlock? {name : String} {body : List Node} {x : Stmt}
    (hx : x ∈ Node.statements body) : ∀ {ns : List Node}, Node.lastBlock? name ns = some body →
    x ∈ Node.statements ns
  | .mk s _ :: rest, h => by
    rw [Node.lastBlock?] at h
    rw [Node.statements, List.mem_append]
    rcases Option.or_eq_some_iff.1 h with h | ⟨-, h⟩
    · exact .inr (Node.statements_lastBlock? hx h)
    · cases s with
      | block n b =>
        rw [Stmt.bodyOf?] at h
        split at h
        · cases h
          exact .inl (List.mem_cons_of_mem _ hx)
        · cases h
      | _ => cases h

/-- A template whose blocks only print the parent's block can be merged. -/
theorem Emit.mergeable_lastBlock? {c : Compiler} {b : BlockMap} {rest : List Node}
    (hext : c.extensions = []) (hsuper : c.functions.lookup "super" = none) (hb : b.Closed)
    (hlinks : Node.links rest = []) (hprints : Node.PrintsSuper rest) :
    Mergeable c b (Node.lastBlock? · rest) where
  extensions := hext
  nodup := hb.numbered.nodup
  inherited := hb.links
  super _ _ _ := hsuper
  links _ _ hns := List.filterMap_eq_nil_iff.2 fun _ hx =>
    Node.link?_of_links hlinks (Node.statements_lastBlock? hx hns)
  prints _ _ hns := fun x hx => hprints x (Node.statements_lastBlock? hx hns)

/-- A template that extends another one compiles as a layout, if that does and the
result can be written. -/
theorem Compiler.compileWithin_extending {c : Compiler} {depth : Nat}
    {template compiled text path : String} {pos : Position} {rest : List Node} {d d₁ d' : Disk}
    {out : Output}
    (hnested : exec (c.nestedWithin depth (c.viewPath d path) .layout) d = (.ok out, d₁))
    (M : Emit.Mergeable c out.toBlocks (Node.lastBlock? · rest))
    (hpath : c.compiledPath d template .layout = .ok compiled)
    (hmust : c.mustCompile d template compiled = true) (hsame : Path.same template compiled = false)
    (hread : d.read template = .ok text)
    (hparse : c.parse text template = .ok (.mk (.extending (some (.str path))) pos :: rest))
    (hlinks : Node.links rest = []) (hblocks : Node.BlocksOutermost rest)
    (hmacros : (Node.openMacros rest ++
      Emit.mergedMacros (Node.lastBlock? · rest) out.toBlocks.entries).Nodup)
    {left : String × BlockMap} {entries : List (BlockKey × String)}
    (hleft : Plain.gather? (c.site template) (.outermost c.options.autoescape) rest "" .empty =
      some left)
    (hmerged : Plain.merged? (c.site template) (.outermost c.options.autoescape)
      (Node.lastBlock? · rest) out.toBlocks.entries = some entries)
    (hsave : d₁.save? compiled (.text (Emit.blocksOf entries).text) = some d') :
    exec (c.compileWithin (depth + 1) template .layout) d =
      (.ok ⟨.blocks (Emit.blocksOf entries), compiled, true⟩, d') := by
  have hlayout := Emit.layout_extending template c.options.autoescape pos M hnested hlinks hblocks
  rw [hleft, hmerged] at hlayout
  obtain ⟨s, hs, hdisk⟩ := hlayout.2 _ rfl ⟨hmacros, by simp⟩
  refine (compileWithin_eq_ok_iff hpath hmust).2 ⟨rfl, ?_⟩
  refine (compileFileWith_eq_ok_iff hsame hread hparse).2 ⟨s, ?_, ?_⟩
  · exact exec_map_eq_ok.2 ⟨_, hs, rfl⟩
  · rw [hdisk]
    exact hsave

namespace Chain

variable {c : Compiler} {d : Disk} {n : Nat} {t : Nat → String} {tree : Nat → Template}
  {own : Nat → List Node} {m : Nat → BlockMap}

/-- Compiling a template of the chain is emitting its tree and writing the result. -/
theorem compileWithin_iff (H : Chain c d n t tree own m) {i : Nat} (hi : i ≤ n) :
    ∃ path, ∀ depth r d', exec (c.compileWithin (depth + 1) (t i) .layout) d = (.ok r, d') ↔
      ∃ b s, r = ⟨.blocks b, path, true⟩ ∧
        exec (Emit.layout (.outer c (t i) (c.nestedWithin depth)) (tree i))
          (.initial c.options.autoescape d) = (.ok b, s) ∧
        s.disk.save? path (.text b.text) = some d' := by
  obtain ⟨path, hcompiled⟩ := H.compiled i hi
  obtain ⟨text, hread, hparse⟩ := H.holds i hi
  rw [Compiler.exec_compile] at hcompiled
  obtain ⟨hpath, hmust⟩ := Compiler.compileWithin_ok hcompiled
  have hsame : Path.same (t i) path = false := by
    have hrun := (Compiler.compileWithin_eq_ok_iff hpath hmust).1 (Prod.ext hcompiled rfl)
    exact (Compiler.compileFileWith_ok hrun.2).1
  refine ⟨path, fun depth r d' => ?_⟩
  rw [Compiler.compileWithin_eq_ok_iff hpath hmust,
    Compiler.compileFileWith_eq_ok_iff hsame hread hparse]
  constructor
  · rintro ⟨hr, s, hemit, hsave⟩
    obtain ⟨b, hlayout, hb⟩ := exec_map_eq_ok.1 hemit
    rw [← hb] at hsave
    exact ⟨b, s, hr.trans (by rw [← hb]), hlayout, hsave⟩
  · rintro ⟨b, s, rfl, hlayout, hsave⟩
    exact ⟨rfl, s, exec_map_eq_ok.2 ⟨b, hlayout, rfl⟩, hsave⟩

/-- One level of the chain: what the level below compiles to, and what follows from
it however other templates are compiled. -/
theorem step (H : Chain c d n t tree own m) {i : Nat} (hi : i < n)
    (below : ∀ depth r d', exec (c.compileWithin depth (t i) .layout) d = (.ok r, d') →
      r.output.toBlocks.Closed ∧ exec (c.compileWithin (depth + 1) (t i) .layout) d = (.ok r, d'))
    {depth : Nat} {b : BlockMap} {s : Emit.State}
    (h : exec (Emit.layout (.outer c (t (i + 1)) (c.nestedWithin depth)) (tree (i + 1)))
      (.initial c.options.autoescape d) = (.ok b, s)) :
    ∃ r d', exec (c.compileWithin depth (t i) .layout) d = (.ok r, d') ∧
      (∃ entries, Plain.merged? (c.site (t (i + 1))) (.outermost c.options.autoescape)
        (Node.lastBlock? · (own (i + 1))) r.output.toBlocks.entries = some entries ∧
        b = Emit.blocksOf entries) ∧
      (Emit.mergedMacros (Node.lastBlock? · (own (i + 1))) r.output.toBlocks.entries).Nodup ∧
      ∃ s', exec (Emit.layout (.outer c (t (i + 1)) (c.nestedWithin (depth + 1))) (tree (i + 1)))
        (.initial c.options.autoescape d) = (.ok b, s') ∧ s'.disk = s.disk := by
  obtain ⟨path, pos, hview, htree⟩ := H.extending i hi
  rw [htree] at h ⊢
  obtain ⟨out, d', hnested⟩ := Emit.nested_of_layout_extending H.extensions h
  obtain ⟨r, hrun, rfl⟩ : ∃ r, exec (c.compileWithin depth (t i) .layout) d = (.ok r, d') ∧
      r.output = out := by
    rw [hview] at hnested
    exact exec_map_eq_ok.1 hnested
  obtain ⟨hclosed, hrun'⟩ := below depth r d' hrun
  have M := Emit.mergeable_lastBlock? H.extensions H.super hclosed (H.links i hi) (H.prints i hi)
  have hnested' : exec (c.nestedWithin (depth + 1) (c.viewPath d path) .layout) d =
      (.ok r.output, d') := by
    rw [hview]
    exact exec_map_eq_ok.2 ⟨r, hrun', rfl⟩
  have hyields := Emit.layout_extending (t (i + 1)) c.options.autoescape pos M hnested
    (H.links i hi)
    (H.blocks i hi)
  have hyields' := Emit.layout_extending (t (i + 1)) c.options.autoescape pos M hnested'
    (H.links i hi)
    (H.blocks i hi)
  obtain ⟨hr, hfresh, hdisk⟩ := hyields.ok h
  obtain ⟨s', hlayout', hdisk'⟩ := hyields'.2 b hr hfresh
  refine ⟨r, d', hrun, ?_, (List.nodup_append.1 hfresh.1).2.1, s', hlayout',
    hdisk'.trans hdisk.symm⟩
  obtain ⟨code, -, hmerged⟩ := Option.bind_eq_some_iff.1 hr
  obtain ⟨entries, hentries, hb⟩ := Option.bind_eq_some_iff.1 hmerged
  exact ⟨entries, hentries, (Option.some.inj hb).symm⟩

/-- What a template of the chain compiles to does not depend on how deep compilations
may go, once it compiles at all. -/
theorem settled (H : Chain c d n t tree own m) : ∀ i ≤ n, ∀ depth r d',
    exec (c.compileWithin depth (t i) .layout) d = (.ok r, d') →
    r.output.toBlocks.Closed ∧ exec (c.compileWithin (depth + 1) (t i) .layout) d = (.ok r, d')
  | i, _, 0, r, d', h => by cases h
  | 0, hi, depth + 1, r, d', h => by
    obtain ⟨path, hiff⟩ := H.compileWithin_iff hi
    obtain ⟨b, s, rfl, hlayout, hsave⟩ := (hiff depth r d').1 h
    obtain ⟨hclosed, hsame⟩ := Emit.layout_closed H.root hlayout
    exact ⟨hclosed, (hiff (depth + 1) _ d').2 ⟨b, s, rfl, hsame _, hsave⟩⟩
  | i + 1, hi, depth + 1, r, d', h => by
    obtain ⟨path, hiff⟩ := H.compileWithin_iff hi
    obtain ⟨b, s, rfl, hlayout, hsave⟩ := (hiff depth r d').1 h
    obtain ⟨r₁, d₁, -, ⟨entries, -, rfl⟩, -, s', hlayout', hdisk⟩ :=
      H.step hi (H.settled i (Nat.le_of_succ_le hi)) hlayout
    refine ⟨⟨Emit.blocksOf_numbered entries, fun key ns hmem => ?_⟩,
      (hiff (depth + 1) _ d').2 ⟨_, s', rfl, hlayout', hdisk ▸ hsave⟩⟩
    exact List.eq_nil_iff_forall_not_mem.2
      (Emit.blocksOf_linksIn (fun _ => False) entries key ns hmem)

/-- Each level is the one below it, merged. -/
theorem merged (H : Chain c d n t tree own m) {i : Nat} (hi : i < n) :
    (m i).Closed ∧ (Emit.mergedMacros (Node.lastBlock? · (own (i + 1))) (m i).entries).Nodup ∧
      ∃ entries, Plain.merged? (c.site (t (i + 1))) (.outermost c.options.autoescape)
        (Node.lastBlock? · (own (i + 1))) (m i).entries = some entries ∧
        m (i + 1) = Emit.blocksOf entries := by
  obtain ⟨path, hbelow⟩ := H.compiled i (Nat.le_of_lt hi)
  obtain ⟨path', habove⟩ := H.compiled (i + 1) hi
  obtain ⟨_, hiff⟩ := H.compileWithin_iff (i := i + 1) hi
  have hdepth : Compiler.nestingLimit d = 2 * d.items.length + 63 + 1 := rfl
  rw [Compiler.exec_compile, hdepth] at hbelow habove
  obtain ⟨b, s, hr, hlayout, -⟩ := (hiff _ _ _).1 (Prod.ext habove rfl)
  obtain ⟨r, d', hrun, ⟨entries, hentries, hb⟩, hnodup, -⟩ :=
    H.step hi (H.settled i (Nat.le_of_lt hi)) hlayout
  obtain ⟨hclosed, hrun'⟩ := H.settled i (Nat.le_of_lt hi) _ r d' hrun
  have hblocks : r.output.toBlocks = m i := by
    rw [hrun'] at hbelow
    have : r = ⟨.blocks (m i), path, true⟩ := Except.ok.inj hbelow
    rw [this]
    rfl
  have habove : m (i + 1) = b := by
    simp only [Compilation.mk.injEq, Output.blocks.injEq] at hr
    exact hr.1
  rw [hblocks] at hclosed hentries hnodup
  exact ⟨hclosed, hnodup, entries, hentries, habove.trans hb⟩

/-- A level has the keys of the one below it. -/
theorem keys_succ (H : Chain c d n t tree own m) {i : Nat} (hi : i < n) :
    (m (i + 1)).keys = (m i).keys := by
  obtain ⟨hclosed, -, entries, hentries, habove⟩ := H.merged hi
  have hkeys : entries.map (·.1) = (m i).keys := Plain.merged?_keys hentries
  rw [habove, Emit.blocksOf_eq hclosed.numbered hkeys, ← hkeys]
  unfold BlockMap.keys
  rw [List.map_map]
  rfl

theorem keys_eq (H : Chain c d n t tree own m) : ∀ i ≤ n, (m i).keys = (m 0).keys
  | 0, _ => rfl
  | i + 1, hi => (H.keys_succ hi).trans (H.keys_eq i (Nat.le_of_succ_le hi))

/-- The code of an entry is what its nodes compile to as a page of their own. -/
theorem entry_page (H : Chain c d n t tree own m) {i : Nat} (hi : i < n) {key : BlockKey}
    {body : BlockBody} (hbody : (m i).get? key = some body) :
    ∃ code, (m (i + 1)).get? key = some (.code code) ∧
      c.pageOf (t (i + 1)) d (Emit.entryNodes (Node.lastBlock? · (own (i + 1))) key body) =
      .ok code := by
  obtain ⟨hclosed, hnodup, entries, hentries, habove⟩ := H.merged hi
  have hkeys : entries.map (·.1) = (m i).keys := Plain.merged?_keys hentries
  have hmem := BlockMap.mem_of_get? hbody
  obtain ⟨code, hcode, hplain⟩ := Plain.mem_merged? hentries hmem
  refine ⟨code, BlockMap.get?_of_mem ?_ ?_,
    (Compiler.pageOf_eq_ok_iff H.extensions ?_).2 ⟨hplain, ?_⟩⟩
  · rw [H.keys_succ hi]
    exact hclosed.numbered.nodup
  · rw [habove, Emit.blocksOf_eq hclosed.numbered hkeys]
    exact List.mem_map_of_mem hcode
  · have M := Emit.mergeable_lastBlock? H.extensions H.super hclosed (H.links i hi) (H.prints i hi)
    exact Emit.links_entryNodes M hmem
  · exact Emit.nodup_of_mergedMacros hnodup hmem

/-- Above level 0 there is only code. -/
theorem code_of_pos (H : Chain c d n t tree own m) {i : Nat} (hpos : 0 < i) (hi : i ≤ n)
    {key : BlockKey} {body : BlockBody} (hbody : (m i).get? key = some body) :
    ∃ code, body = .code code := by
  obtain ⟨i, rfl⟩ : ∃ j, i = j + 1 := ⟨i - 1, by omega⟩
  have hmem : key ∈ (m i).keys := by
    rw [← H.keys_succ hi]
    exact List.mem_map_of_mem (BlockMap.mem_of_get? hbody)
  obtain ⟨⟨_, below⟩, hentry, rfl⟩ := List.mem_map.1 hmem
  have hbelow := BlockMap.get?_of_mem (H.merged hi).1.numbered.nodup hentry
  obtain ⟨code, hcode, -⟩ := H.entry_page hi hbelow
  rw [hbody] at hcode
  exact ⟨code, Option.some.inj hcode⟩

/-- Code that is a page of its own stays as it is. -/
theorem pageOf_text (H : Chain c d n t tree own m) {source text code : String}
    (h : c.pageOf source d (BlockBody.code text).asNodes = .ok code) : code = text := by
  have hplain := ((Compiler.pageOf_eq_ok_iff H.extensions rfl).1 h).1
  simpa [BlockBody.asNodes, Plain.nodes?, Plain.stmt?] using hplain.symm

end Chain

/-! ### A chain of three -/

namespace Storeys

/-- A layout with the blocks `a` and `b`. -/
def base : Template :=
  [.mk (.text "<") .unknown, .mk (.block "a" [.mk (.text "A") .unknown]) .unknown,
    .mk (.block "b" [.mk (.text "B") .unknown]) .unknown, .mk (.text ">") .unknown]

/-- Level 1 redefines `a`, level 2 redefines `b`, and both print the parent's block. -/
def own : Nat → List Node
  | 1 =>
    [.mk (.block "a" [.mk (.echo (some Emit.superCall)) .unknown,
      .mk (.text "+") .unknown]) .unknown]
  | _ => [.mk (.block "b" [.mk (.text "[") .unknown, .mk (.echo (some Emit.superCall)) .unknown,
      .mk (.text "]") .unknown]) .unknown]

def path : Nat → String
  | 0 => "x"
  | 1 => "y"
  | _ => "z"

def tree : Nat → Template
  | 0 => base
  | i + 1 => .mk (.extending (some (.str (path i)))) .unknown :: own (i + 1)

/-- A compiler that reads the text of each level. -/
def compiler : Compiler :=
  { Compiler.initial with
    parse := fun text _ => .ok (tree (if text = "X" then 0 else if text = "Y" then 1 else 2)) }

def disk : Disk :=
  { Disk.empty with
    items := [(["w", "x"], .file (.text "X") 1000), (["w", "y"], .file (.text "Y") 1000),
      (["w", "z"], .file (.text "Z") 1000)] }

/-- What the levels compile to. -/
def blocks : Nat → BlockMap
  | 0 => ⟨[(.position 0, .code "<"), (.name "a", .nodes [.mk (.text "A") .unknown]),
      (.name "b", .nodes [.mk (.text "B") .unknown]), (.position 1, .code ">")], 2⟩
  | 1 => ⟨[(.position 0, .code "<"), (.name "a", .code "A+"), (.name "b", .code "B"),
      (.position 1, .code ">")], 2⟩
  | _ => ⟨[(.position 0, .code "<"), (.name "a", .code "A+"), (.name "b", .code "[B]"),
      (.position 1, .code ">")], 2⟩

/-- The disk after the first levels have been compiled. -/
def after : Nat → Disk
  | 0 => disk
  | i + 1 => ((after i).put ["w", path i ++ "%%e%%.php"]
      (.file (.text (blocks i).text) (after i).now)).tick

theorem links (i : Nat) : Node.links (own i) = [] := by
  unfold own
  split <;> rfl

theorem outermost (i : Nat) : Node.BlocksOutermost (own i) := by
  unfold own
  split <;> simp [Node.BlocksOutermost, Node.stmt, Stmt.isBlock]

theorem prints (i : Nat) : Node.PrintsSuper (own i) := by
  unfold own
  split <;> simp [Node.PrintsSuper, Node.statements, Stmt.statements, Stmt.exprs, Emit.superCall]

theorem closed (i : Nat) : (blocks i).Closed := by
  unfold blocks
  split
  · refine ⟨⟨by decide, rfl⟩, fun key ns h => ?_⟩
    simp only [List.mem_cons, Prod.mk.injEq, reduceCtorEq, and_false, BlockBody.nodes.injEq,
      List.not_mem_nil, or_false, false_or] at h
    rcases h with ⟨-, rfl⟩ | ⟨-, rfl⟩ <;> rfl
  · exact ⟨⟨by decide, rfl⟩, fun key ns h => by simp at h⟩
  · exact ⟨⟨by decide, rfl⟩, fun key ns h => by simp at h⟩

theorem mergeable (i : Nat) : Emit.Mergeable compiler (blocks i)
    (Node.lastBlock? · (own (i + 1))) :=
  Emit.mergeable_lastBlock? rfl rfl (closed i) (links _) (prints _)

theorem compile_base (depth : Nat) : exec (compiler.compileWithin (depth + 1) "x" .layout) disk =
    (.ok ⟨.blocks (blocks 0), "x%%e%%.php", true⟩, after 1) := rfl

theorem compile_middle (depth : Nat) : exec (compiler.compileWithin (depth + 2) "y" .layout) disk =
    (.ok ⟨.blocks (blocks 1), "y%%e%%.php", true⟩, after 2) := by
  have hnested :
      exec (compiler.nestedWithin (depth + 1) (compiler.viewPath disk "x") .layout) disk =
    (.ok (.blocks (blocks 0)), after 1) := exec_map_eq_ok.2 ⟨_, compile_base depth, rfl⟩
  exact Compiler.compileWithin_extending hnested (mergeable 0) rfl (by decide +kernel)
    (by decide +kernel) rfl rfl (links 1) (outermost 1) (by decide) rfl rfl rfl

theorem compile_top (depth : Nat) : exec (compiler.compileWithin (depth + 3) "z" .layout) disk =
    (.ok ⟨.blocks (blocks 2), "z%%e%%.php", true⟩, after 3) := by
  have hnested :
      exec (compiler.nestedWithin (depth + 2) (compiler.viewPath disk "y") .layout) disk =
    (.ok (.blocks (blocks 1)), after 2) := exec_map_eq_ok.2 ⟨_, compile_middle depth, rfl⟩
  exact Compiler.compileWithin_extending hnested (mergeable 1) rfl (by decide +kernel)
    (by decide +kernel) rfl rfl (links 2) (outermost 2) (by decide) rfl rfl rfl

theorem chain : Chain compiler disk 2 path tree own blocks where
  extensions := rfl
  super := rfl
  holds := by
    intro i hi
    match i, hi with
    | 0, _ => exact ⟨"X", rfl, rfl⟩
    | 1, _ => exact ⟨"Y", rfl, rfl⟩
    | 2, _ => exact ⟨"Z", rfl, rfl⟩
  root := rfl
  extending := by
    intro i hi
    match i, hi with
    | 0, _ => exact ⟨"x", .unknown, rfl, rfl⟩
    | 1, _ => exact ⟨"y", .unknown, rfl, rfl⟩
  links := fun i _ => links (i + 1)
  blocks := fun i _ => outermost (i + 1)
  prints := fun i _ => prints (i + 1)
  compiled := by
    have hdepth : Compiler.nestingLimit disk = 67 + 3 := rfl
    intro i hi
    rw [Compiler.exec_compile, hdepth]
    match i, hi with
    | 0, _ => exact ⟨_, congrArg Prod.fst (compile_base 69)⟩
    | 1, _ => exact ⟨_, congrArg Prod.fst (compile_middle 68)⟩
    | 2, _ => exact ⟨_, congrArg Prod.fst (compile_top 67)⟩

end Storeys

namespace Chain

/-- **The levels of a chain.** All levels have the same keys in the same order. An
entry that a level does not redefine keeps its code; at level 1 it has the code of
the nodes of level 0, compiled with no block to override. An entry that a level
redefines has the code of its last body for it, where the entry of the level below
stands in place of printing the parent's block. -/
theorem levels {c : Compiler} {d : Disk} {n : Nat} {t : Nat → String} {tree : Nat → Template}
    {own : Nat → List Node} {m : Nat → BlockMap} (H : Chain c d n t tree own m) :
    (∀ i ≤ n, (m i).keys = (m 0).keys) ∧
    (∀ i < n, ∀ key body, (m i).get? key = some body →
      (∀ name, key = .name name → Node.lastBlock? name (own (i + 1)) = none) →
      ∃ code, (m (i + 1)).get? key = some (.code code) ∧
        c.pageOf (t (i + 1)) d body.asNodes = .ok code ∧ (0 < i → body = .code code)) ∧
    (∀ i < n, ∀ name ns body, Node.lastBlock? name (own (i + 1)) = some ns →
      (m i).get? (.name name) = some body →
      ∃ code, (m (i + 1)).get? (.name name) = some (.code code) ∧
        c.pageOf (t (i + 1)) d (Node.plug (some (body.standIn name)) ns) = .ok code ∧
        (0 < i → ∃ below, body = .code below)) := by
  refine ⟨H.keys_eq, fun i hi key body hbody hkept => ?_, fun i hi name ns body hns hbody => ?_⟩
  · obtain ⟨code, hcode, hpage⟩ := H.entry_page hi hbody
    have hnodes : Emit.entryNodes (Node.lastBlock? · (own (i + 1))) key body = body.asNodes := by
      cases key with
      | position p => rfl
      | name name => exact Emit.entryNodes_inherited body (hkept name rfl)
    rw [hnodes] at hpage
    refine ⟨code, hcode, hpage, fun hpos => ?_⟩
    obtain ⟨text, rfl⟩ := H.code_of_pos hpos (Nat.le_of_lt hi) hbody
    rw [H.pageOf_text hpage]
  · obtain ⟨code, hcode, hpage⟩ := H.entry_page hi hbody
    have hnodes : Emit.entryNodes (Node.lastBlock? · (own (i + 1))) (.name name) body =
      Node.plug (some (body.standIn name)) ns := Emit.entryNodes_redefined body hns
    rw [hnodes] at hpage
    exact ⟨code, hcode, hpage, fun hpos => H.code_of_pos hpos (Nat.le_of_lt hi) hbody⟩

/-- Level 2 of a chain keeps the block that level 1 redefines, and redefines another
one. -/
theorem levels_storeys :
    Chain Storeys.compiler Storeys.disk 2 Storeys.path Storeys.tree Storeys.own Storeys.blocks ∧
    (Storeys.blocks 2).keys = (Storeys.blocks 0).keys ∧
    (∃ code, (Storeys.blocks 2).get? (.name "a") = some (.code code) ∧
      Storeys.compiler.pageOf "z" Storeys.disk (BlockBody.code "A+").asNodes = .ok code ∧
      (0 < 1 → BlockBody.code "A+" = .code code)) ∧
    (∃ code, (Storeys.blocks 2).get? (.name "b") = some (.code code) ∧
      Storeys.compiler.pageOf "z" Storeys.disk (Node.plug (some (.text "B"))
        [.mk (.text "[") .unknown, .mk (.echo (some Emit.superCall)) .unknown,
          .mk (.text "]") .unknown]) = .ok code ∧
      (0 < 1 → ∃ below, BlockBody.code "B" = .code below)) ∧
    ∃ code, (Storeys.blocks 1).get? (.name "a") = some (.code code) ∧
      Storeys.compiler.pageOf "y" Storeys.disk
      (Node.plug (some (.block "a" [.mk (.text "A") .unknown]))
        [.mk (.echo (some Emit.superCall)) .unknown, .mk (.text "+") .unknown]) = .ok code ∧
      (0 < 0 → ∃ below, BlockBody.nodes [.mk (.text "A") .unknown] = .code below) := by
  obtain ⟨keys, kept, redefined⟩ := levels Storeys.chain
  refine ⟨Storeys.chain, keys 2 (by decide), ?_, ?_, ?_⟩
  · refine kept 1 (by decide) (.name "a") (.code "A+") rfl ?_
    rintro _ ⟨⟩
    rfl
  · exact redefined 1 (by decide) "b" _ (.code "B") rfl rfl
  · exact redefined 0 (by decide) "a" _ (.nodes [.mk (.text "A") .unknown]) rfl rfl

end Chain
end Stencil
