/-
# Merging a template into the layout it extends

Each entry of the layout becomes code. A block that the template redefines is
emitted from the template's last body for it. Where that prints the parent's
block, the inherited body is emitted in its place, or its code is put there. So
an entry has the plain code of the nodes `entryNodes` gives, and nothing else
that the template or the layout holds matters for it.

Key definitions: `Node.lastBlock?`, `Emit.entryNodes`, `Plain.merged?`.
Key theorems: `Emit.over_whole`, `Emit.entry_yields`, `Emit.mergeEntries_yields`,
`Emit.layout_extending`, `Emit.page_extending`.
-/
import Stencil.Proofs.Agreement
import Stencil.Proofs.Pages

namespace Stencil

/-- The body of a block of the given name. -/
def Stmt.bodyOf? (name : String) : Stmt → Option (List Node)
  | .block n body => if name = n then some body else none
  | _ => none

/-- The last of the outermost blocks of a name. -/
def Node.lastBlock? (name : String) : List Node → Option (List Node)
  | [] => none
  | .mk s _ :: rest => (Node.lastBlock? name rest).or (s.bodyOf? name)

/-- Calls of the parent's block are printed, and stand nowhere else. -/
def Node.PrintsSuper (ns : List Node) : Prop :=
  ∀ x ∈ Node.statements ns, x = .echo (some Emit.superCall) ∨
    ∀ e ∈ x.exprs, e.all (fun e => !e.isSuper) = true

/-- A body as nodes. -/
def BlockBody.asNodes : BlockBody → List Node
  | .code text => [.mk (.text text) .unknown]
  | .nodes ns => ns

/-- A body as a statement that prints it. -/
def BlockBody.standIn (name : String) : BlockBody → Stmt
  | .code text => .text text
  | .nodes ns => .block name ns

/-- A layout whose bodies name no template. -/
structure BlockMap.Closed (m : BlockMap) : Prop where
  numbered : m.Numbered
  links : ∀ key ns, (key, .nodes ns) ∈ m.entries → Node.links ns = []

/-- The nodes whose code an entry gets, where `redefined` gives the bodies that
override blocks. -/
def Emit.entryNodes (redefined : String → Option (List Node)) (key : BlockKey)
    (inherited : BlockBody) : List Node :=
  match key with
  | .position _ => inherited.asNodes
  | .name name =>
    match redefined name with
    | some body => Node.plug (some (inherited.standIn name)) body
    | none => inherited.asNodes

theorem Emit.entryNodes_inherited {redefined : String → Option (List Node)} {name : String}
    (inherited : BlockBody) (h : redefined name = none) :
    entryNodes redefined (.name name) inherited = inherited.asNodes := by
  simp [entryNodes, h]

theorem Emit.entryNodes_redefined {redefined : String → Option (List Node)} {name : String}
    {body : List Node} (inherited : BlockBody) (h : redefined name = some body) :
    entryNodes redefined (.name name) inherited =
      Node.plug (some (inherited.standIn name)) body := by
  simp [entryNodes, h]

/-- The entries with their code. -/
def Plain.merged? (S : Site) (k : Spot) (redefined : String → Option (List Node)) :
    List (BlockKey × BlockBody) → Option (List (BlockKey × String))
  | [] => some []
  | (key, inherited) :: rest => do
    let code ← nodes? S k (Emit.entryNodes redefined key inherited)
    let codes ← merged? S k redefined rest
    return (key, code) :: codes

/-- The macros that the entries define. -/
def Emit.mergedMacros (redefined : String → Option (List Node)) :
    List (BlockKey × BlockBody) → List String
  | [] => []
  | (key, inherited) :: rest =>
    Node.macroNames (entryNodes redefined key inherited) ++ mergedMacros redefined rest

theorem Plain.gather?_named? {S : Site} {k : Spot} (name : String) :
    ∀ {ns : List Node} {code : String}
    {m : BlockMap} {p : String × BlockMap}, gather? S k ns code m = some p →
    p.2.named? name = ((Node.lastBlock? name ns).map .nodes).or (m.named? name)
  | [], code, m, p, h => by
    cases h
    rfl
  | .mk s pos :: rest, code, m, p, h => by
    have other (hs : s.bodyOf? name = none)
        (h : (stmt? S k s >>= fun more => gather? S k rest (code ++ more) m) = some p) :
        p.2.named? name = ((Node.lastBlock? name (.mk s pos :: rest)).map .nodes).or
          (m.named? name) := by
      obtain ⟨more, -, hrest⟩ := Option.bind_eq_some_iff.1 h
      rw [gather?_named? name hrest, Node.lastBlock?, hs, Option.or_none]
    cases s with
    | block n body =>
      have hrest : gather? S k rest "" ((m.segment code).define n (.nodes body)) = some p := h
      rw [gather?_named? name hrest, BlockMap.named?_define, BlockMap.named?_segment,
        Node.lastBlock?, Stmt.bodyOf?]
      cases Node.lastBlock? name rest with
      | some body' => rfl
      | none =>
        by_cases hn : name = n
        · simp [hn]
        · simp [hn]
    | _ => exact other rfl h

/-- Entries keep their keys. -/
theorem Plain.merged?_keys {S : Site} {k : Spot} {redefined : String → Option (List Node)} :
    ∀ {entries : List (BlockKey × BlockBody)} {codes : List (BlockKey × String)},
    merged? S k redefined entries = some codes → codes.map (·.1) = entries.map (·.1)
  | [], codes, h => by
    cases h
    rfl
  | (key, inherited) :: rest, codes, h => by
    obtain ⟨code, -, h⟩ := Option.bind_eq_some_iff.1 h
    obtain ⟨more, hrest, h⟩ := Option.bind_eq_some_iff.1 h
    cases h
    rw [List.map_cons, List.map_cons, merged?_keys hrest]

/-- Each entry has its code. -/
theorem Plain.mem_merged? {S : Site} {k : Spot} {redefined : String → Option (List Node)}
    {key : BlockKey} {inherited : BlockBody} :
    ∀ {entries : List (BlockKey × BlockBody)} {codes : List (BlockKey × String)},
    merged? S k redefined entries = some codes → (key, inherited) ∈ entries →
    ∃ code, (key, code) ∈ codes ∧ nodes? S k (Emit.entryNodes redefined key inherited) = some code
  | (key', inherited') :: rest, codes, h, hmem => by
    obtain ⟨code, hcode, h⟩ := Option.bind_eq_some_iff.1 h
    obtain ⟨more, hrest, h⟩ := Option.bind_eq_some_iff.1 h
    cases h
    rcases List.mem_cons.1 hmem with he | hmem
    · cases he
      exact ⟨code, List.mem_cons_self, hcode⟩
    · obtain ⟨code', hmem', hcode'⟩ := mem_merged? hrest hmem
      exact ⟨code', List.mem_cons_of_mem _ hmem', hcode'⟩

namespace Emit

open Plain (Spot)

section
variable {c : Compiler} {source : String} {nested : String → Mode → DiskM Output}

/-! ### Printing the parent's block -/

theorem echo_superCall {env : Env} (hext : env.compiler.extensions = [])
    (hsuper : env.compiler.functions.lookup "super" = none) :
    echo env (some superCall) = inExpr env.superBlock := by
  have hnone : ∀ hook, env.compiler.handled hook = none := Compiler.handled_eq_none hext
  have hcall : callNamed env "super" (Code.commas []) [] = env.superBlock := by
    unfold callNamed
    rw [hnone, hsuper]
    rfl
  have hexpr : expr env superCall = inExpr env.superBlock := by
    unfold superCall
    rw [expr, hooked, asked, hnone, lowered, args, pure_bind]
    exact congrArg inExpr hcall
  have hrequired : required env .expr (some superCall) = Pure.pure superCall := rfl
  unfold echo
  rw [hrequired, pure_bind, hexpr]
  exact bind_pure _

/-- The scene of a body that overrides a block. -/
def Scene.over (env : Env) (name : String) (parent : BlockMap) (inherited : BlockBody) : Scene :=
  ⟨env, .page, false, some name, some parent, some (inherited.standIn name), true⟩

/-- The scene of an inherited body inside the one that overrides it. -/
def Scene.under (c : Compiler) (source : String) (nested : String → Mode → DiskM Output)
    (parent : BlockMap) : Scene :=
  ⟨.inner c source nested, .page, false, none, some parent, none, false⟩

/-- Printing the parent's block emits the inherited body. -/
theorem superCode_yields {name : String} {parent : BlockMap} {inherited : BlockBody}
    (hext : c.extensions = []) (hnamed : parent.named? name = some inherited)
    (hlinks : ∀ ns, inherited = .nodes ns → Node.links ns = []) {k : Spot} {s : State}
    (hs : At (.over (.outer c source nested) name parent inherited) k s) :
    Yields (superCode (.inner c source nested)) { s with exprLevel := 1 }
      (Fresh (inherited.standIn name).macroNames s.macros)
      (Plain.stmt? (c.site source) k (inherited.standIn name))
      fun t => Moved (.over (.outer c source nested) name parent inherited)
        (k.using (inherited.standIn name).usesLoop) (inherited.standIn name).macroNames
        { s with exprLevel := 1 } t := by
  have hbody : (s.currentBlock.bind fun name => s.parent.bind (·.named? name)) =
      some inherited := by
    rw [hs.block, hs.parent]
    exact hnamed
  unfold superCode
  refine .get_bind ?_
  dsimp only
  rw [hbody]
  cases inherited with
  | code code =>
    dsimp only
    rw [pure_bind]
    refine .get_bind ?_
    rw [if_pos (beq_self_eq_true 1)]
    have htext : Moved (.over (.outer c source nested) name parent (.code code)) (k.using false) []
        { s with exprLevel := 1 } { s with exprLevel := 1 } := by
      rw [Spot.using_false]
      exact ⟨rfl, fun _ _ => rfl, hs.used, fun _ _ => rfl, by simp, hs.stem⟩
    exact .pure (fresh_nil _) htext
  | nodes ns =>
    have hunder : (Scene.under c source nested parent).Whole :=
      ⟨⟨hext, fun _ _ _ _ => rfl⟩, nofun, nofun⟩
    have hfits : ∀ x ∈ Node.statements ns, (Scene.under c source nested parent).Fits x :=
      fun x hx => fits_of_quiet rfl (Node.link?_of_links (hlinks ns rfl) hx) nofun
    have hat : At (Scene.under c source nested parent) k
        { s with exprLevel := 1, currentBlock := none } :=
      ⟨hs.autoescape, hs.depth, hs.branch, hs.used, hs.stem, rfl, hs.parent,
        .inl (hs.inline.resolve_right nofun), nofun⟩
    have hlist := list_emits hunder ns k hfits _ hat
    have hplug : Node.plug (Scene.under c source nested parent).plug ns = ns := Node.plug_none ns
    rw [hplug] at hlist
    have houtside : Yields (outsideBlock (list (.inner c source nested) .page ns))
        { s with exprLevel := 1 }
        (Fresh (Node.macroNames ns) s.macros) (Plain.nodes? (c.site source) k ns) fun t =>
          Moved (.over (.outer c source nested) name parent (.nodes ns))
            (k.using (Node.usesLoop ns))
            (Node.macroNames ns) { s with exprLevel := 1 } t := by
      refine hlist.within fun t hm => ?_
      have hf := hm.frame
      refine ⟨?_, hm.recorded, hm.used, hm.branches, hm.macros, hm.stem⟩
      rw [hf]
    have hcode : Plain.stmt? (c.site source) k (.block name ns) =
        Plain.nodes? (c.site source) k ns >>= some := by simp [Plain.stmt?]
    dsimp only
    rw [BlockBody.standIn, hcode]
    refine houtside.bind_last fun code t _ hm => ?_
    have hlevel : (t.exprLevel == 1) = true := by rw [hm.frame]; rfl
    refine .get_bind ?_
    rw [if_pos hlevel]
    exact .pure trivial hm

/-- What stands for printing the parent's block emits what that emits. -/
theorem over_whole {name : String} {parent : BlockMap} {inherited : BlockBody}
    (hext : c.extensions = []) (hsuper : c.functions.lookup "super" = none)
    (hnamed : parent.named? name = some inherited)
    (hlinks : ∀ ns, inherited = .nodes ns → Node.links ns = []) :
    (Scene.over (.outer c source nested) name parent inherited).Whole where
  extensions := hext
  quiet := nofun
  notForElse := by cases inherited <;> simp [Scene.over, BlockBody.standIn]
  plugged := by
    intro r hr k s hs
    cases hr
    have hlevel : s.exprLevel = 0 := hs.rest rfl
    have hinside := superCode_yields hext hnamed hlinks hs
    rw [← Nat.zero_add 1, ← hlevel] at hinside
    have hecho : echo (Scene.over (.outer c source nested) name parent inherited).env
        (some superCall) =
        inExpr (superCode (.inner c source nested)) := echo_superCall hext hsuper
    rw [hecho]
    refine hinside.within fun t hm => ?_
    have hf := hm.frame
    refine ⟨?_, hm.recorded, hm.used, hm.branches, hm.macros, hm.stem⟩
    rw [hf]
    rfl

/-! ### Entries -/

/-- The state with no block overridden. -/
def State.outside (s : State) : State := { s with currentBlock := none }

/-- A layout that names no template. -/
theorem layout_closed {c : Compiler} {source : String} {nested : String → Mode → DiskM Output}
    {tree : Template}
    (hlinks : Node.links tree = []) {a : Bool} {d : Disk} {m : BlockMap} {s : State}
    (h : exec (layout (.outer c source nested) tree) (.initial a d) = (.ok m, s)) :
    m.Closed ∧ ∀ nested', exec (layout (.outer c source nested') tree) (.initial a d) =
      (.ok m, s) := by
  have hagrees := fun nested' => layout_agrees (similar_of_no_links c source nested nested') tree
    (by simp [hlinks]) _ _ (alike_initial a (rfl : d = d))
  refine ⟨?_, fun nested' => ?_⟩
  · obtain ⟨-, e, -, -, ⟨hlinked, hnumbered⟩, -⟩ := hagrees nested
    rw [h] at hlinked hnumbered
    have links : ∀ {m : BlockMap}, m.LinksIn (fun _ => False) → ∀ key ns,
        (key, .nodes ns) ∈ m.entries → Node.links ns = [] := fun hm key ns hmem =>
      List.eq_nil_iff_forall_not_mem.2 (hm key ns hmem)
    rcases layout_cases h with rfl | ⟨entries, rfl⟩
    · exact ⟨hnumbered, links hlinked⟩
    · exact ⟨blocksOf_numbered entries, links (blocksOf_linksIn _ entries)⟩
  · obtain ⟨hres, e, hstate, hdisk, -⟩ := hagrees nested'
    rw [h] at hres hstate hdisk
    refine Prod.ext hres.symm ?_
    rw [hstate, ← hdisk]

/-- What an entry of the layout `parent` may be merged from: bodies that name no
template, and in `redefined` only print the parent's block. -/
structure Mergeable (c : Compiler) (parent : BlockMap) (redefined : String → Option (List Node)) :
    Prop where
  extensions : c.extensions = []
  nodup : parent.keys.Nodup
  inherited : ∀ key ns, (key, .nodes ns) ∈ parent.entries → Node.links ns = []
  super : ∀ name ns, redefined name = some ns → c.functions.lookup "super" = none
  links : ∀ name ns, redefined name = some ns → Node.links ns = []
  prints : ∀ name ns, redefined name = some ns → Node.PrintsSuper ns

variable {parent : BlockMap} {redefined : String → Option (List Node)} {own : BlockMap} {a : Bool}

/-- An inherited body. -/
theorem inherited_yields (M : Mergeable c parent redefined) {key : BlockKey} {inherited : BlockBody}
    (hmem : (key, inherited) ∈ parent.entries) {s : State}
    (hs : At (.quiet (.outer c source nested) .page false (some parent)) (.outermost a) s.outside) :
    Yields (bodyCode (.outer c source nested) inherited) s.outside
      (Fresh (Node.macroNames inherited.asNodes) s.macros)
      (Plain.nodes? (c.site source) (.outermost a) inherited.asNodes)
      fun t => Moved (.quiet (.outer c source nested) .page false (some parent)) (.outermost a)
        (Node.macroNames inherited.asNodes) s.outside t.outside := by
  cases inherited with
  | code text =>
    have htext : Plain.nodes? (c.site source) (.outermost a) [.mk (.text text) .unknown] =
        some text := by
      simp [Plain.nodes?, Plain.stmt?]
    rw [BlockBody.asNodes, htext]
    exact .pure (fresh_nil _) hs.moved
  | nodes ns =>
    have hfits : ∀ x ∈ Node.statements ns,
        (Scene.quiet (.outer c source nested) .page false (some parent)).Fits x := fun x hx =>
      fits_of_quiet rfl (Node.link?_of_links (M.inherited key ns hmem) hx) nofun
    have hlist := list_emits (quiet_whole M.extensions .page false (some parent)) ns (.outermost a)
      hfits _ hs
    have hplug :
        Node.plug (Scene.quiet (.outer c source nested) .page false (some parent)).plug ns =
      ns := Node.plug_none ns
    rw [hplug, using_outermost] at hlist
    refine hlist.mono Iff.rfl fun t hm => ?_
    have hblock : t.currentBlock = none := by rw [hm.frame]; rfl
    have houtside : t.outside = t := by unfold State.outside; rw [← hblock]
    rw [houtside]
    exact hm

/-- A body that overrides an inherited one. -/
theorem redefined_yields (M : Mergeable c parent redefined) {name : String} {inherited : BlockBody}
    {body : List Node} (hmem : (.name name, inherited) ∈ parent.entries)
    (hbody : redefined name = some body) {s : State}
    (hs : At (.quiet (.outer c source nested) .page false (some parent)) (.outermost a) s.outside) :
    Yields (bodyCode (.outer c source nested) (.nodes body)) { s with currentBlock := some name }
      (Fresh (Node.macroNames (Node.plug (some (inherited.standIn name)) body)) s.macros)
      (Plain.nodes? (c.site source) (.outermost a) (Node.plug (some (inherited.standIn name)) body))
      fun t => Moved (.quiet (.outer c source nested) .page false (some parent)) (.outermost a)
        (Node.macroNames (Node.plug (some (inherited.standIn name)) body)) s.outside t.outside := by
  have hnamed : parent.named? name = some inherited := BlockMap.get?_of_mem M.nodup hmem
  have hwhole : (Scene.over (.outer c source nested) name parent inherited).Whole :=
    over_whole M.extensions (M.super name body hbody) hnamed fun ns hns =>
      M.inherited _ ns (hns ▸ hmem)
  have hadmits : (Scene.over (.outer c source nested) name parent inherited).admits =
      fun e => !e.isSuper := by
    funext e
    simp [Scene.admits, Scene.over]
  have hfits : ∀ x ∈ Node.statements body,
      (Scene.over (.outer c source nested) name parent inherited).Fits x := by
    intro x hx
    refine ⟨Node.link?_of_links (M.links name body hbody) hx, nofun, ?_⟩
    rw [hadmits]
    exact (M.prints name body hbody x hx).imp (fun he => ⟨nofun, he⟩) id
  have hat : At (.over (.outer c source nested) name parent inherited) (.outermost a)
      { s with currentBlock := some name } :=
    ⟨hs.autoescape, hs.depth, hs.branch, hs.used, hs.stem, rfl, hs.parent, hs.inline, hs.rest⟩
  have hlist := list_emits hwhole body (.outermost a) hfits _ hat
  rw [using_outermost] at hlist
  refine hlist.mono Iff.rfl fun t hm => ?_
  have hf := hm.frame
  refine ⟨?_, hm.recorded, hm.used, hm.branches, hm.macros, hm.stem⟩
  unfold State.outside
  rw [hf]

/-- The code of an entry is that of its nodes. -/
theorem entry_yields (M : Mergeable c parent redefined)
    (hown : ∀ name, own.named? name = (redefined name).map .nodes) {key : BlockKey}
    {inherited : BlockBody} (hmem : (key, inherited) ∈ parent.entries) {s : State}
    (hs : At (.quiet (.outer c source nested) .page false (some parent)) (.outermost a) s.outside) :
    Yields (bodyCode (.outer c source nested) (override own key inherited).2)
      { s with currentBlock := (override own key inherited).1 }
      (Fresh (Node.macroNames (entryNodes redefined key inherited)) s.macros)
      (Plain.nodes? (c.site source) (.outermost a) (entryNodes redefined key inherited))
      fun t => Moved (.quiet (.outer c source nested) .page false (some parent)) (.outermost a)
        (Node.macroNames (entryNodes redefined key inherited)) s.outside t.outside := by
  cases key with
  | position p => exact inherited_yields M hmem hs
  | name name =>
    have hnamed := hown name
    cases hbody : redefined name with
    | none =>
      rw [hbody] at hnamed
      have hover : override own (.name name) inherited = (none, inherited) := by
        simp [override, hnamed]
      rw [hover, entryNodes_inherited inherited hbody]
      exact inherited_yields M hmem hs
    | some body =>
      rw [hbody] at hnamed
      have hover : override own (.name name) inherited = (some name, .nodes body) := by
        simp [override, hnamed]
      rw [hover, entryNodes_redefined inherited hbody]
      exact redefined_yields M hmem hbody hs

/-- The entries one after another. -/
theorem mergeEntries_yields (M : Mergeable c parent redefined)
    (hown : ∀ name, own.named? name = (redefined name).map .nodes) :
    ∀ (entries : List (BlockKey × BlockBody)) (s : State), (∀ e ∈ entries, e ∈ parent.entries) →
    At (.quiet (.outer c source nested) .page false (some parent)) (.outermost a) s.outside →
    Yields (mergeEntries (.outer c source nested) own entries) s
      (Fresh (mergedMacros redefined entries) s.macros)
      (Plain.merged? (c.site source) (.outermost a) redefined entries)
      fun t => Moved (.quiet (.outer c source nested) .page false (some parent)) (.outermost a)
        (mergedMacros redefined entries) s.outside t.outside
  | [], s, _, hs => by
    rw [mergeEntries]
    exact .pure (fresh_nil _) hs.moved
  | (key, inherited) :: rest, s, hmem, hs => by
    have hentry := entry_yields M hown (hmem _ List.mem_cons_self) hs
    have hrest := fun t => mergeEntries_yields M hown rest t fun e he =>
      hmem e (List.mem_cons_of_mem _ he)
    rw [mergeEntries, Plain.merged?, mergedMacros]
    refine .modify_bind ?_
    refine hentry.bind_fresh (fun t hm => hm.macros) fun code t _ hm => ?_
    refine (hrest t (hm.at_outermost hs)).bind_last fun codes u _ hu => ?_
    exact .pure trivial (hm.trans_outermost hu)

/-- Merging a template into the layout it extends. -/
theorem merge_yields (M : Mergeable c parent redefined) {s : State}
    (hown : ∀ name, s.blocks.named? name = (redefined name).map .nodes)
    (hparent : s.parent = some parent)
    (hs : At (.quiet (.outer c source nested) .page false (some parent)) (.outermost a)
      { s with blocks := .empty, extended := false, currentBlock := none }) :
    Yields (merge (.outer c source nested)) s
      (Fresh (mergedMacros redefined parent.entries) s.macros)
      (Plain.merged? (c.site source) (.outermost a) redefined parent.entries)
      fun t => t.disk = s.disk := by
  have hentries := mergeEntries_yields M hown parent.entries
    { s with blocks := .empty, extended := false } (fun _ he => he) hs
  unfold merge
  refine .get_bind ?_
  rw [hparent]
  refine hentries.within fun t hm => ?_
  have : t.outside.disk = s.disk := by rw [hm.frame]; rfl
  exact this

/-! ### Templates that extend a layout -/

/-- A statement that names the layout to extend, before `rest`. -/
theorem exec_nodes_extending {env : Env} {path : String} {pos : Position}
    (hhook : env.compiler.handled (·.statement (.mk (.extending (some (.str path))) pos)) = none)
    (mode : Mode) (rest : List Node) (registering : Bool) (code : String) (s : State) :
    exec (nodes env mode (.mk (.extending (some (.str path))) pos :: rest) registering code) s =
      match exec (env.nested (env.compiler.viewPath s.disk path) .layout) s.disk with
      | (.ok out, d) => exec (nodes env mode rest true code)
          { s with extended := true, parent := some out.toBlocks, disk := d }
      | (.error e, d) => (.error e, { s with disk := d }) := by
  rw [nodes, exec_bind, step, inStmt, exec_within, hhook]
  dsimp only [Node.stmt, Node.pos, place]
  rw [stmt, extendView, exec_bind, exec_bind, exec_bind, exec_get]
  dsimp only
  rw [exec_bind, exec_onDisk]
  rcases exec (env.nested (env.compiler.viewPath s.disk path) .layout) s.disk with ⟨r, d⟩
  cases r with
  | error e => rfl
  | ok out => simp [Stmt.isExtending]

/-- The state in which the statements after the one that extends are emitted. -/
def State.extending (a : Bool) (m : BlockMap) (d : Disk) : State :=
  { State.initial a d with extended := true, parent := some m }

/-- What is left to do in a page after it has extended a layout, before it is merged. -/
def extendingList (env : Env) (rest : List Node) : EmitM String := do
  let p ← inList false (nodes env .page rest true "")
  if p.2 && (← get).blockLevel == 0 then segment p.1
  return p.1

/-- The statements of a page that extends a layout. -/
theorem exec_list_extending_cons {env : Env} {path : String} {pos : Position}
    (hhook : env.compiler.handled (·.statement (.mk (.extending (some (.str path))) pos)) = none)
    (rest : List Node) (autoescape : Bool) (d : Disk) :
    exec (list env .page (.mk (.extending (some (.str path))) pos :: rest))
      (.initial autoescape d) =
      match exec (env.nested (env.compiler.viewPath d path) .layout) d with
      | (.ok out, d') => exec (extendingList env rest) (.extending autoescape out.toBlocks d')
      | (.error e, d') => (.error e, .initial autoescape d') := by
  have hdisk : (State.initial autoescape d).disk = d := rfl
  unfold list sequence inList
  rw [if_neg (by simp), exec_bind, exec_get]
  dsimp only
  rw [exec_bind, exec_within, exec_nodes_extending hhook]
  dsimp only
  rw [hdisk]
  rcases exec (env.nested (env.compiler.viewPath d path) .layout) d with ⟨r, d'⟩
  cases r with
  | error e => rfl
  | ok out =>
    dsimp only
    unfold extendingList inList
    rw [exec_bind, exec_within]
    rfl

/-- A page that only extends a layout, before it is merged. -/
theorem exec_list_extending {env : Env} {path : String} {pos : Position}
    (hhook : env.compiler.handled (·.statement (.mk (.extending (some (.str path))) pos)) = none)
    (a : Bool) (d : Disk) :
    exec (list env .page [.mk (.extending (some (.str path))) pos]) (.initial a d) =
      match exec (env.nested (env.compiler.viewPath d path) .layout) d with
      | (.ok out, d') => (.ok "", .extending a out.toBlocks d')
      | (.error e, d') => (.error e, .initial a d') := by
  rw [exec_list_extending_cons hhook]
  rcases exec (env.nested (env.compiler.viewPath d path) .layout) d with ⟨r, d'⟩
  cases r <;> rfl

/-- The statements of a layout that extends another one, given what that compiles to. -/
theorem list_extending (source : String) (a : Bool) {path : String} (pos : Position)
    {rest : List Node} {d d' : Disk} {out : Output} (hext : c.extensions = [])
    (hnested : exec (nested (c.viewPath d path) .layout) d = (.ok out, d'))
    (hlinks : Node.links rest = []) (hblocks : Node.BlocksOutermost rest) :
    Yields (list (.outer c source nested) .layout (.mk (.extending (some (.str path))) pos :: rest))
      (.initial a d) (Fresh (Node.openMacros rest) [])
      ((Plain.gather? (c.site source) (.outermost a) rest "" .empty).map (·.1))
      fun t => Moved (.quiet (.outer c source nested) .layout true (some out.toBlocks))
          (.outermost a) (Node.openMacros rest)
          { State.extending a out.toBlocks d' with blocks := t.blocks } t ∧
        (Plain.gather? (c.site source) (.outermost a) rest "" .empty).map
          (fun p => p.2.segment p.1) =
          some t.blocks := by
  have hat : At (.quiet (.outer c source nested) .layout true (some out.toBlocks)) (.outermost a)
      { State.extending a out.toBlocks d' with level := 1, blockLevel := 1 } :=
    ⟨rfl, rfl, rfl, rfl, nofun, rfl, rfl, .inr ⟨rfl, Nat.one_pos⟩, fun _ => rfl⟩
  have hnodes := nodes_gathers (quiet_whole hext .layout true (some out.toBlocks)) rfl rfl rest "" _
    hlinks hblocks hat
  have hcode : (Plain.gather? (c.site source) (.outermost a) rest "" .empty).map
      (fun p => (p.1, true)) =
      ((Plain.gather? (c.site source) (.outermost a) rest "" .empty).map (·.1)).map
        fun code => (code, true) := by rw [Option.map_map]; rfl
  have hall : Yields (nodes (.outer c source nested) .layout
        (.mk (.extending (some (.str path))) pos :: rest) true "")
      { State.initial a d with level := 1, blockLevel := 1 } (Fresh (Node.openMacros rest) [])
      (((Plain.gather? (c.site source) (.outermost a) rest "" .empty).map (·.1)).map
        fun code => (code, true))
      fun t => Moved (.quiet (.outer c source nested) .layout true (some out.toBlocks))
          (.outermost a) (Node.openMacros rest)
          { State.extending a out.toBlocks d' with
            level := 1, blockLevel := 1, blocks := t.blocks } t ∧
        (Plain.gather? (c.site source) (.outermost a) rest "" .empty).map (·.2) =
          some t.blocks := by
    rw [← hcode]
    have hrun : exec (nested (c.viewPath (State.initial a d).disk path) .layout)
      (State.initial a d).disk = (.ok out, d') := hnested
    unfold Yields
    rw [exec_nodes_extending (Compiler.handled_eq_none hext _)]
    dsimp only [Env.outer]
    rw [hrun]
    exact hnodes
  refine Yields.outermost rfl hall fun code u hr hu => ?_
  obtain ⟨p, hp, rfl⟩ := Option.map_eq_some_iff.1 hr
  obtain ⟨hm, hgathered⟩ := hu
  have hkept : p.2 = u.blocks := by simpa [hp] using hgathered
  have hf := hm.frame
  refine ⟨by rw [hf], ⟨?_, hm.recorded, hm.used, hm.branches, hm.macros, hm.stem⟩, ?_⟩
  · rw [hf]
    rfl
  · simp [hp, hkept]

/-- The template's statements have been emitted and it is merged next. -/
theorem extending_at {m : BlockMap} {mode : Mode} {bare : Bool} {names : List String} {d : Disk}
    {t : State}
    (h : Moved (.quiet (.outer c source nested) mode bare (some m)) (.outermost a) names
      { State.extending a m d with blocks := t.blocks } t) :
    At (.quiet (.outer c source nested) .page false (some m)) (.outermost a)
      { t with blocks := .empty, extended := false, currentBlock := none } := by
  have hf := h.frame
  refine ⟨?_, ?_, h.branches 0 (Nat.le_refl _), h.used, h.stem, rfl, ?_, .inl ⟨rfl, rfl⟩, ?_⟩
  · rw [hf]; rfl
  · rw [hf]; rfl
  · rw [hf]; rfl
  · rw [hf]; exact fun _ => rfl

/-- A layout that extends another one, given what that compiles to. -/
theorem layout_extending (source : String) (a : Bool) {path : String} (pos : Position)
    {rest : List Node} {d d' : Disk}
    {out : Output} (M : Mergeable c out.toBlocks (Node.lastBlock? · rest))
    (hnested : exec (nested (c.viewPath d path) .layout) d = (.ok out, d'))
    (hlinks : Node.links rest = []) (hblocks : Node.BlocksOutermost rest) :
    Yields (layout (.outer c source nested) (.mk (.extending (some (.str path))) pos :: rest))
      (.initial a d)
      (Fresh (Node.openMacros rest ++
        mergedMacros (Node.lastBlock? · rest) out.toBlocks.entries) [])
      (((Plain.gather? (c.site source) (.outermost a) rest "" .empty).map (·.1)) >>= fun _ =>
        (Plain.merged? (c.site source) (.outermost a) (Node.lastBlock? · rest)
          out.toBlocks.entries) >>= fun entries => some (blocksOf entries))
      fun t => t.disk = d' := by
  have hlist := list_extending source a pos M.extensions hnested hlinks hblocks
  refine Yields.bind_fresh (s := .initial a d) hlist (fun t ht => ht.1.macros)
    fun code t hr ht => ?_
  obtain ⟨p, hp, rfl⟩ := Option.map_eq_some_iff.1 hr
  obtain ⟨hm, hgathered⟩ := ht
  have hown : ∀ name, t.blocks.named? name = (Node.lastBlock? name rest).map .nodes := by
    intro name
    have hblocks : p.2.segment p.1 = t.blocks := by simpa [hp] using hgathered
    rw [← hblocks, BlockMap.named?_segment, Plain.gather?_named? name hp]
    exact Option.or_none
  have hf := hm.frame
  have hextended : t.extended = true := by rw [hf]; rfl
  have hparent : t.parent = some out.toBlocks := by rw [hf]; rfl
  have hdisk : t.disk = d' := by rw [hf]; rfl
  refine .get_bind ?_
  rw [if_pos hextended]
  exact (merge_yields M hown hparent (extending_at hm)).bind_last
    fun entries u _ hu => .pure trivial (hu.trans hdisk)

/-- A page that only extends a layout, given what that compiles to. -/
theorem page_extending (source : String) (a : Bool) {path : String} (pos : Position) {d d' : Disk}
    {out : Output} (M : Mergeable c out.toBlocks fun _ => none)
    (hnested : exec (nested (c.viewPath d path) .layout) d = (.ok out, d')) :
    Yields (page (.outer c source nested) [.mk (.extending (some (.str path))) pos]) (.initial a d)
      (mergedMacros (fun _ => none) out.toBlocks.entries).Nodup
      ((Plain.merged? (c.site source) (.outermost a) (fun _ => none) out.toBlocks.entries) >>=
        fun entries => some (String.join (entries.map (·.2))))
      fun t => t.disk = d' := by
  have hlist : exec (list (.outer c source nested) .page [.mk (.extending (some (.str path))) pos])
      (.initial a d) = (.ok "", State.extending a out.toBlocks d') := by
    rw [exec_list_extending (Compiler.handled_eq_none M.extensions _)]
    dsimp only [Env.outer]
    rw [hnested]
  have hown : ∀ name, (State.extending a out.toBlocks d').blocks.named? name =
    (none : Option (List Node)).map .nodes := fun _ => rfl
  have hat : At (.quiet (.outer c source nested) .page false (some out.toBlocks)) (.outermost a)
      { State.extending a out.toBlocks d' with extended := false } :=
    ⟨rfl, rfl, rfl, rfl, nofun, rfl, rfl, .inl ⟨rfl, rfl⟩, fun _ => rfl⟩
  have hextended : (State.extending a out.toBlocks d').extended = true := rfl
  refine .of_exec hlist (.get_bind ?_)
  rw [if_pos hextended, ← fresh_empty]
  exact (merge_yields M hown rfl hat).bind_last fun entries u _ hu => .pure trivial hu

end

end Emit
end Stencil
