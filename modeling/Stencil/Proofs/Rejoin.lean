/-
# Extending a template and nothing more

A template that names no other one can be compiled in two ways. As a page its
statements are emitted one after another. As a layout it is cut at its outermost
blocks, the code between them is filed by number and the blocks are kept; a page
that only extends it emits the blocks later, under another name, and puts all of
it together in the order of the map. Both give the same code, if no name is given
to two of the outermost blocks and loop variables do not depend on the name of
the template.

The converse fails: a macro may be defined in a block and also outside of it,
and is then defined twice in the page but not in the layout.

Key definitions: `BlockMap.Joins`, `Compiler.Anew`.
Key theorems: `Plain.gather?_joins`, `Compiler.Anew.compileWithin`,
`Compiler.compile_extending_alone`.
-/
import Stencil.Proofs.Lookup
import Stencil.Proofs.Merging

namespace Stencil

/-- The name of a block. -/
def Stmt.blockName? : Stmt → Option String
  | .block name _ => some name
  | _ => none

theorem Stmt.blockName?_eq_none {s : Stmt} (h : s.isBlock = false) : s.blockName? = none := by
  cases s with
  | block name body => cases h
  | _ => rfl

/-- The names of the outermost blocks. -/
def Node.blockNames (ns : List Node) : List String := ns.filterMap (·.stmt.blockName?)

/-- The macros that nodes define in their outermost blocks. -/
def Node.blockMacros : List Node → List String
  | [] => []
  | .mk s _ :: rest => (if s.isBlock then s.macroNames else []) ++ Node.blockMacros rest

theorem Node.openMacros_sublist (ns : List Node) :
    (Node.openMacros ns).Sublist (Node.macroNames ns) := by
  induction ns with
  | nil => exact .refl _
  | cons n rest ih =>
    obtain ⟨s, pos⟩ := n
    rw [Node.macroNames_cons, Node.openMacros]
    by_cases hs : s.isBlock = true
    · rw [if_pos hs]
      exact ih.trans (List.sublist_append_right _ _)
    · rw [if_neg hs]
      exact (List.append_sublist_append_left _).2 ih

theorem Node.blockMacros_sublist (ns : List Node) :
    (Node.blockMacros ns).Sublist (Node.macroNames ns) := by
  induction ns with
  | nil => exact .refl _
  | cons n rest ih =>
    obtain ⟨s, pos⟩ := n
    rw [Node.macroNames_cons, Node.blockMacros]
    by_cases hs : s.isBlock = true
    · rw [if_pos hs]
      exact (List.append_sublist_append_left _).2 ih
    · rw [if_neg hs]
      exact ih.trans (List.sublist_append_right _ _)

/-! ### Putting entries together -/

namespace Plain

variable {S : Site} {k : Spot} {redefined : String → Option (List Node)}

theorem merged?_concat (key : BlockKey) (body : BlockBody) :
    ∀ entries : List (BlockKey × BlockBody),
    merged? S k redefined (entries ++ [(key, body)]) =
      merged? S k redefined entries >>= fun codes =>
        nodes? S k (Emit.entryNodes redefined key body) >>= fun code =>
          some (codes ++ [(key, code)])
  | [] => by cases h : nodes? S k (Emit.entryNodes redefined key body) <;> simp [merged?, h]
  | (key', body') :: rest => by
    rw [List.cons_append, merged?, merged?, merged?_concat key body rest]
    cases nodes? S k (Emit.entryNodes redefined key' body') with
    | none => rfl
    | some code =>
      cases merged? S k redefined rest with
      | none => rfl
      | some codes => cases nodes? S k (Emit.entryNodes redefined key body) <;> simp

end Plain

theorem Emit.mergedMacros_concat {redefined : String → Option (List Node)} (key : BlockKey)
    (body : BlockBody) : ∀ entries : List (BlockKey × BlockBody),
    mergedMacros redefined (entries ++ [(key, body)]) =
      mergedMacros redefined entries ++ Node.macroNames (entryNodes redefined key body)
  | [] => by simp [mergedMacros]
  | (key', body') :: rest => by
    rw [List.cons_append, mergedMacros, mergedMacros, mergedMacros_concat key body rest,
      List.append_assoc]

theorem Emit.entryNodes_none (key : BlockKey) (body : BlockBody) :
    entryNodes (fun _ => none) key body = body.asNodes := by
  cases key <;> rfl

/-- The entries of a map, in order and with no block overridden, have this code and
define these macros. -/
structure BlockMap.Joins (S : Plain.Site) (k : Plain.Spot) (m : BlockMap) (code : String)
    (macros : List String) : Prop where
  numbered : m.Numbered
  codes : ∃ entries, Plain.merged? S k (fun _ => none) m.entries = some entries ∧
    String.join (entries.map (·.2)) = code
  macros : Emit.mergedMacros (fun _ => none) m.entries = macros

namespace BlockMap.Joins

variable {S : Plain.Site} {k : Plain.Spot} {m : BlockMap} {code more : String}
  {macros : List String}

theorem empty : BlockMap.empty.Joins S k "" [] := ⟨.empty, ⟨[], rfl, rfl⟩, rfl⟩

theorem concat (h : m.Joins S k code macros) {m' : BlockMap} {key : BlockKey} {body : BlockBody}
    (hm : m'.Numbered) (hentries : m'.entries = m.entries ++ [(key, body)])
    (hcode : Plain.nodes? S k body.asNodes = some more) :
    m'.Joins S k (code ++ more) (macros ++ Node.macroNames body.asNodes) := by
  obtain ⟨entries, hmerged, hjoin⟩ := h.codes
  refine ⟨hm, ⟨entries ++ [(key, more)], ?_, ?_⟩, ?_⟩
  · rw [hentries, Plain.merged?_concat, hmerged, Emit.entryNodes_none, hcode]
    rfl
  · rw [List.map_append, String.join_append, hjoin]
    simp [String.join]
  · rw [hentries, Emit.mergedMacros_concat, h.macros, Emit.entryNodes_none]

theorem segment (h : m.Joins S k code macros) (more : String) :
    (m.segment more).Joins S k (code ++ more) macros := by
  unfold BlockMap.segment
  by_cases hmore : more = ""
  · rw [if_pos hmore, hmore, String.append_empty]
    exact h
  · rw [if_neg hmore]
    have htext : Plain.nodes? S k (BlockBody.code more).asNodes = some more := by
      simp [BlockBody.asNodes, Plain.nodes?, Plain.stmt?]
    have happend := h.concat (h.numbered.append more) (h.numbered.append_entries more) htext
    have hmacros : Node.macroNames (BlockBody.code more).asNodes = [] := rfl
    rw [hmacros, List.append_nil] at happend
    exact happend

theorem define (h : m.Joins S k code macros) {name : String} {body : List Node}
    (hname : .name name ∉ m.keys) (hcode : Plain.nodes? S k body = some more) :
    (m.define name (.nodes body)).Joins S k (code ++ more) (macros ++ Node.macroNames body) :=
  h.concat (h.numbered.define name (.nodes body)) (BlockMap.put_eq_append hname) hcode

end BlockMap.Joins

theorem BlockMap.name_mem_segment {m : BlockMap} (hm : m.Numbered) {code name : String} :
    .name name ∈ (m.segment code).keys ↔ .name name ∈ m.keys := by
  unfold BlockMap.segment
  by_cases hcode : code = ""
  · rw [if_pos hcode]
  · rw [if_neg hcode]
    simp [BlockMap.keys, hm.append_entries]

theorem BlockMap.name_mem_define {m : BlockMap} {name : String} {body : BlockBody}
    (hname : .name name ∉ m.keys) {other : String} :
    .name other ∈ (m.define name body).keys ↔ .name other ∈ m.keys ∨ other = name := by
  have hentries : (m.define name body).entries = m.entries ++ [(.name name, body)] :=
    BlockMap.put_eq_append hname
  simp [BlockMap.keys, hentries]

/-- What a template is cut into joins to its code. The induction is on the nodes
after those that are cut already. -/
theorem Plain.gather?_joins {S : Site} {a : Bool} :
    ∀ {ns : List Node} (code : String) {m : BlockMap}
    {before more : String} {macros : List String}, m.Joins S (.outermost a) before macros →
    (∀ name ∈ Node.blockNames ns, .name name ∉ m.keys) → (Node.blockNames ns).Nodup →
    nodes? S (.outermost a) ns = some more →
    ∃ p, gather? S (.outermost a) ns code m = some p ∧
      (p.2.segment p.1).Joins S (.outermost a) (before ++ code ++ more)
      (macros ++ Node.blockMacros ns)
  | [], code, m, before, more, macros, hm, _, _, hcode => by
    cases hcode
    refine ⟨(code, m), rfl, ?_⟩
    rw [String.append_empty, Node.blockMacros, List.append_nil]
    exact hm.segment code
  | .mk s pos :: rest, code, m, before, more, macros, hm, hnew, hnodup, hcode => by
    obtain ⟨first, hfirst, hcode⟩ := Option.bind_eq_some_iff.1 hcode
    obtain ⟨others, hothers, hcode⟩ := Option.bind_eq_some_iff.1 hcode
    cases hcode
    rw [Emit.using_outermost] at hothers
    cases hs : s.isBlock with
    | true =>
      obtain ⟨name, body, rfl⟩ := Stmt.eq_block hs
      have hnames : Node.blockNames (.mk (.block name body) pos :: rest) =
          name :: Node.blockNames rest := rfl
      rw [hnames] at hnew hnodup
      obtain ⟨hnotin, hnodup⟩ := List.nodup_cons.1 hnodup
      have hname : .name name ∉ (m.segment code).keys := fun h =>
        hnew name List.mem_cons_self ((BlockMap.name_mem_segment hm.numbered).1 h)
      have hdefined := (hm.segment code).define hname hfirst
      have hnew' : ∀ n ∈ Node.blockNames rest,
          .name n ∉ ((m.segment code).define name (.nodes body)).keys := by
        intro n hn h
        rcases (BlockMap.name_mem_define hname).1 h with h | rfl
        · exact hnew n (List.mem_cons_of_mem _ hn) ((BlockMap.name_mem_segment hm.numbered).1 h)
        · exact hnotin hn
      obtain ⟨p, hp, hjoins⟩ := gather?_joins "" hdefined hnew' hnodup hothers
      refine ⟨p, hp, ?_⟩
      have hmacros : (Stmt.block name body).macroNames = Node.macroNames body := rfl
      simpa [Node.blockMacros, Stmt.isBlock, hmacros, String.append_assoc] using hjoins
    | false =>
      have hnames : Node.blockNames (.mk s pos :: rest) = Node.blockNames rest := by
        simp [Node.blockNames, Node.stmt, Stmt.blockName?_eq_none hs]
      rw [hnames] at hnew hnodup
      obtain ⟨p, hp, hjoins⟩ := gather?_joins (code ++ first) hm hnew hnodup hothers
      refine ⟨p, ?_, ?_⟩
      · rw [gather?_cons hs, hfirst]
        exact hp
      · simpa [Node.blockMacros, hs, String.append_assoc] using hjoins

/-! ### Compiling anew -/

namespace Compiler

/-- The template is compiled anew in this mode: its compiled file cannot be used
again and can be written. -/
structure Anew (c : Compiler) (d : Disk) (template : String) (mode : Mode) (compiled : String) :
    Prop where
  path : c.compiledPath d template mode = .ok compiled
  must : c.mustCompile d template compiled = true
  apart : Path.same template compiled = false
  writable : d.Writable compiled

/-- What a template emits, it compiles to. -/
theorem Anew.compileWithin {c : Compiler} {d : Disk} {template compiled : String} {mode : Mode}
    (A : c.Anew d template mode compiled) {tree : Template} (hholds : Holds c d template tree)
    {depth : Nat} {out : Output} {s : Emit.State}
    (hemit : exec (emitTree (.outer c template (c.nestedWithin depth)) tree mode)
      (.initial c.options.autoescape d) = (.ok out, s)) (hdirs : Disk.SameDirs d s.disk) :
    ∃ d', exec (c.compileWithin (depth + 1) template mode) d = (.ok ⟨out, compiled, true⟩, d') ∧
      Disk.SameDirs d d' := by
  obtain ⟨text, hread, hparse⟩ := hholds
  obtain ⟨d', hsave, hdirs'⟩ := (hdirs.writable A.writable).exists_save? (.text out.stored)
  refine ⟨d', (compileWithin_eq_ok_iff A.path A.must).2 ⟨rfl, ?_⟩,
    fun p => (hdirs' p).trans (hdirs p)⟩
  exact (compileFileWith_eq_ok_iff A.apart hread hparse).2 ⟨s, hemit, hsave⟩

/-- A template that names no other one, compiled as a layout. -/
theorem Anew.compile_layout {c : Compiler} {d : Disk} {template compiled code : String}
    {tree : Template} (A : c.Anew d template .layout compiled) (hext : c.extensions = [])
    (hholds : Holds c d template tree) (hlinks : Node.links tree = [])
    (hblocks : Node.BlocksOutermost tree) (hnames : (Node.blockNames tree).Nodup)
    (hplain : Plain.nodes? (c.site template) (.outermost c.options.autoescape) tree = some code)
    (hnodup : (Node.macroNames tree).Nodup) (depth : Nat) :
    ∃ m d', exec (c.compileWithin (depth + 1) template .layout) d =
        (.ok ⟨.blocks m, compiled, true⟩, d') ∧ Disk.SameDirs d d' ∧ m.Closed ∧
      m.Joins (c.site template) (.outermost c.options.autoescape) code (Node.blockMacros tree) := by
  obtain ⟨p, hgather, hjoins⟩ :=
    Plain.gather?_joins "" .empty (fun _ _ => List.not_mem_nil) hnames hplain
  have hlayout := Emit.layout_gathers template
    (c.nestedWithin depth) c.options.autoescape d hext hlinks
    hblocks
  rw [hgather] at hlayout
  obtain ⟨s, hs, hdisk⟩ := hlayout.2 _ rfl ((Node.openMacros_sublist tree).nodup hnodup)
  have hdirs : Disk.SameDirs d s.disk := by
    rw [hdisk]
    exact fun _ => Iff.rfl
  obtain ⟨d', hrun, hdirs'⟩ := A.compileWithin hholds (exec_map_eq_ok.2 ⟨_, hs, rfl⟩) hdirs
  refine ⟨_, d', hrun, hdirs', (Emit.layout_closed hlinks hs).1, ?_⟩
  simpa using hjoins

/-- A page that only extends a layout, given what that compiles to. -/
theorem Anew.compile_extending {c : Compiler} {d d₁ : Disk} {template compiled path code : String}
    {pos : Position} {depth : Nat} {m : BlockMap} {macros : List String}
    (A : c.Anew d template .page compiled) (hext : c.extensions = [])
    (hholds : Holds c d template [.mk (.extending (some (.str path))) pos])
    (hnested : exec (c.nestedWithin depth (c.viewPath d path) .layout) d = (.ok (.blocks m), d₁))
    (hdirs : Disk.SameDirs d d₁) (hclosed : m.Closed)
    (hjoins : m.Joins (c.site template) (.outermost c.options.autoescape) code macros)
    (hmacros : macros.Nodup) :
    ∃ d', exec (c.compileWithin (depth + 1) template .page) d =
      (.ok ⟨.code code, compiled, true⟩, d') := by
  have M : Emit.Mergeable c m fun _ => none :=
    ⟨hext, hclosed.numbered.nodup, hclosed.links, nofun, nofun, nofun⟩
  have hpage := Emit.page_extending template c.options.autoescape pos M hnested
  obtain ⟨entries, hmerged, hjoin⟩ := hjoins.codes
  have hnodup : (Emit.mergedMacros (fun _ => none) m.entries).Nodup := by
    rw [hjoins.macros]
    exact hmacros
  obtain ⟨s, hs, hdisk⟩ := hpage.2 code
    (Option.bind_eq_some_iff.2 ⟨entries, hmerged, congrArg some hjoin⟩) hnodup
  obtain ⟨d', hrun, -⟩ := A.compileWithin hholds (exec_map_eq_ok.2 ⟨_, hs, rfl⟩)
    (by rw [hdisk]; exact hdirs)
  exact ⟨d', hrun⟩

end Compiler

/-! ### A layout of two blocks -/

namespace Doorway

/-- A layout with a loop, a block in a block and a call of the parent's block. -/
def base : Template :=
  [.mk (.text "<") .unknown,
    .mk (.block "a" [
      .mk (.forIn "x" none
        (some (.var "xs")) none [.mk (.echo (some (.var "x"))) .unknown]) .unknown,
      .mk (.block "c" [.mk (.text "C") .unknown]) .unknown]) .unknown,
    .mk (.echo (some Emit.superCall)) .unknown,
    .mk (.block "b" [.mk (.text "B") .unknown]) .unknown, .mk (.text ">") .unknown]

/-- What it compiles to as a page. -/
def code : String := "<<?php foreach ($xs as $x) \x7b ?><?= $x ?><?php \x7d ?>C''B>"

/-- A page that extends it. -/
def page : Template := [.mk (.extending (some (.str "x"))) .unknown]

def compiler : Compiler :=
  { Compiler.initial with
    makeStem := some fun _ => "v"
    parse := fun text _ => .ok (if text = "X" then base else page) }

def disk : Disk :=
  { Disk.empty with
    items := [(["w", "x"], .file (.text "X") 1000), (["w", "y"], .file (.text "Y") 1000)] }

end Doorway

namespace Compiler

/-- **Extending without change.** A template names no other one, its outermost blocks
have different names, and it compiles as a page. Then a page that extends it and
holds nothing else compiles to the same code, where both are compiled anew and loop
variables start the same in all templates. -/
theorem compile_extending_alone {c : Compiler} {d : Disk} {parent child path text code : String}
    {tree : Template} {pos : Position} {compiled compiled' : String} (hext : c.extensions = [])
    (hstem : ∀ p q, c.stemFor p = c.stemFor q) (hread : d.read parent = .ok text)
    (hparse : c.parse text parent = .ok tree) (hlinks : Node.links tree = [])
    (hblocks : Node.BlocksOutermost tree) (hnames : (Node.blockNames tree).Nodup)
    (hpage : (exec (c.compileSource text parent .page) d).1 = .ok (.code code))
    (hchild : Holds c d child [.mk (.extending (some (.str path))) pos])
    (hview : c.viewPath d path = parent) (A : c.Anew d parent .layout compiled)
    (B : c.Anew d child .page compiled') :
    ∃ d', exec (c.compile child .page) d = (.ok ⟨.code code, compiled', true⟩, d') := by
  obtain ⟨hplain, hnodup⟩ := (compileSource_eq_ok_iff hext hparse hlinks).1 hpage
  have hsite : c.site child = c.site parent := by
    unfold site
    rw [hstem child parent]
  have hlimit : nestingLimit d = 2 * d.items.length + 62 + 1 + 1 := rfl
  obtain ⟨m, d₁, hrun, hdirs, hclosed, hjoins⟩ := A.compile_layout hext ⟨text, hread, hparse⟩ hlinks
    hblocks hnames hplain hnodup (2 * d.items.length + 62)
  have hnested : exec (c.nestedWithin (2 * d.items.length + 62 + 1) (c.viewPath d path) .layout) d =
      (.ok (.blocks m), d₁) := by
    rw [hview]
    exact exec_map_eq_ok.2 ⟨_, hrun, rfl⟩
  rw [← hsite] at hjoins
  rw [exec_compile, hlimit]
  exact B.compile_extending hext hchild hnested hdirs hclosed hjoins
    ((Node.blockMacros_sublist tree).nodup hnodup)

/-- A layout whose code is cut into three segments and two blocks. -/
theorem compile_extending_alone_doorway :
    Node.BlocksOutermost Doorway.base ∧ (Node.blockNames Doorway.base).Nodup ∧
    Doorway.compiler.Anew Doorway.disk "x" .layout "x%%e%%.php" ∧
    Doorway.compiler.Anew Doorway.disk "y" .page "y.php" ∧
    (exec (Doorway.compiler.compileSource "X" "x" .page) Doorway.disk).1 =
      .ok (.code Doorway.code) ∧
    ∃ d, exec (Doorway.compiler.compile "y" .page) Doorway.disk =
      (.ok ⟨.code Doorway.code, "y.php", true⟩, d) := by
  have hblocks : Node.BlocksOutermost Doorway.base := by
    simp [Node.BlocksOutermost, Doorway.base, Node.stmt, Stmt.isBlock, Stmt.statements]
  have hnames : (Node.blockNames Doorway.base).Nodup := by decide
  have hlayout : Doorway.compiler.Anew Doorway.disk "x" .layout "x%%e%%.php" :=
    ⟨rfl, by decide +kernel, by decide +kernel, _, rfl, by decide⟩
  have hpage : Doorway.compiler.Anew Doorway.disk "y" .page "y.php" :=
    ⟨rfl, by decide +kernel, by decide +kernel, _, rfl, by decide⟩
  have hread : Doorway.disk.read "x" = .ok "X" := rfl
  have hparse : Doorway.compiler.parse "X" "x" = .ok Doorway.base := rfl
  have hcode : (exec (Doorway.compiler.compileSource "X" "x" .page) Doorway.disk).1 =
      .ok (.code Doorway.code) :=
    (compileSource_eq_ok_iff rfl hparse rfl).2 ⟨by decide +kernel, by decide⟩
  have hchild : Holds Doorway.compiler Doorway.disk "y" Doorway.page := ⟨"Y", rfl, rfl⟩
  exact ⟨hblocks, hnames, hlayout, hpage, hcode, compile_extending_alone rfl (fun _ _ => rfl) hread
    hparse rfl hblocks hnames hcode hchild rfl hlayout hpage⟩

end Compiler
end Stencil
