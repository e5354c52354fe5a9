/-
# Compiled files do not change what compiling gives

In a session compiled files appear and are used again, for the templates called
and for those they name, and a compilation that fails may leave some behind.
The invariant is that a compiled file holds what compiling its template gives on
the disk the session started from (`Faithful`). With it every compilation gives
what it gives on that disk. The proof is by induction on how deep compilations
go, since a compiled file is right because those of the templates it names are.

One condition is needed besides those of `Setting`: no path that is compiled
passes through a compiled file (`Clear`). Such a file would change the reason why
the path leads nowhere.

Key definitions: `fresh`, `Faithful`, `Clear`, `Settled`.
Key theorems: `compileFile_settled`, `load_settled`, `settled_of_links`, `settled`.
-/
import Stencil.Proofs.Agreement
import Stencil.Proofs.Session

namespace Stencil

section
variable (c : Compiler) (d : Disk) (calls : List Call)

/-- What compiling a template gives on the disk the session starts from. -/
noncomputable def fresh (template : String) (mode : Mode) : Except CompileError Output :=
  (exec (c.nestedWithin (need c d template) template mode) d).1

/-- The disk differs from `d` in compiled files only, and they hold what compiling
on `d` gives. -/
structure Faithful (e : Disk) : Prop where
  size : d.items.length ≤ e.items.length
  same : ∀ p, ¬ Kept c d calls p → e.get? p = d.get? p
  held : ∀ template mode p, Requested c d calls template mode → CompiledAt c d template mode p →
    e.get? p = none ∨ ∃ out time, fresh c d template mode = .ok out ∧
      e.get? p = some (.file (.text out.stored) time)

/-- No path that is compiled comes to a compiled file when it is looked up. -/
def Clear : Prop :=
  ∀ template mode place, Requested c d calls template mode → place ∈ d.trail template →
    ¬ Kept c d calls place

/-- These values of the options leave compiled files where they are. -/
def Steady (always stat : Bool) : Prop :=
  ∀ template mode, Requested c d calls template mode →
    (c.tuned always stat).compiledPath d template mode = c.compiledPath d template mode

/-- A link to a template that is compiled to a depth below `n`. -/
structure Allowed (n : Nat) (l : String × Mode) : Prop where
  requested : Requested c d calls (c.viewPath d l.1) l.2
  need_lt : need c d (c.viewPath d l.1) < n
  untried : ∀ dir ∈ c.options.viewsDirs, ∀ p, Kept c d calls p →
    d.locate (Path.join dir l.1) ≠ .ok p

/-- On every disk a session can leave, the template is compiled to what it is
compiled to on the first one. -/
structure Settled (template : String) (mode : Mode) : Prop where
  links : ∀ out, fresh c d template mode = .ok out →
    out.toBlocks.LinksIn (Allowed c d calls (need c d template))
  agrees : ∀ n always stat e, need c d template ≤ n → Steady c d calls always stat →
    Faithful c d calls e →
    (exec ((c.tuned always stat).nestedWithin n template mode) e).1 = fresh c d template mode ∧
      Faithful c d calls (exec ((c.tuned always stat).nestedWithin n template mode) e).2

end

variable {c : Compiler} {d : Disk} {calls : List Call}

/-! ### Faithful disks -/

theorem Setting.vacant_of_kept (H : Setting c d calls) {p : Place} (h : Kept c d calls p) :
    d.get? p = none := by
  obtain ⟨template, mode, hr, compiled, hcompiled, hlocate⟩ := h
  obtain ⟨place, hplace, hnone⟩ := H.vacant template mode compiled hr hcompiled
  rw [hplace] at hlocate
  cases hlocate
  exact hnone

namespace Faithful

theorem refl (H : Setting c d calls) : Faithful c d calls d where
  size := le_rfl
  same _ _ := rfl
  held template mode _ hr hc := .inl (H.vacant_of_kept ⟨template, mode, hr, hc⟩)

theorem grown (H : Setting c d calls) {e : Disk} (F : Faithful c d calls e) :
    d.Grown (Kept c d calls) e where
  same := F.same
  vacant _ := H.vacant_of_kept
  files p hp := by
    obtain ⟨template, mode, hr, hc⟩ := hp
    rcases F.held template mode p hr hc with h | ⟨out, time, -, h⟩ <;> simp [h]

/-- Writing what compiling gives keeps a disk faithful. -/
theorem put (H : Setting c d calls) {e : Disk} (F : Faithful c d calls e) {template : String}
    {mode : Mode} {place : Place} {out : Output} (hr : Requested c d calls template mode)
    (hc : CompiledAt c d template mode place) (hf : fresh c d template mode = .ok out) (time : Nat) :
    Faithful c d calls (e.put place (.file (.text out.stored) time)) := by
  have kept : Kept c d calls place := ⟨template, mode, hr, hc⟩
  have get := e.get?_put ((F.grown H).files place kept) (.file (.text out.stored) time)
  refine ⟨F.size.trans (Disk.length_putItem ..), fun p hp => ?_, fun t m p hr' hc' => ?_⟩
  · have hne : p ≠ place := fun h => hp (h ▸ kept)
    rw [get, if_neg hne]
    exact F.same p hp
  · rw [get]
    by_cases hp : p = place
    · subst hp
      obtain ⟨rfl, rfl⟩ := H.separate _ _ _ _ _ hr hr' hc hc'
      exact .inr ⟨out, time, hf, if_pos rfl⟩
    · rw [if_neg hp]
      exact F.held t m p hr' hc'

/-- Time goes by. -/
theorem tick {e : Disk} (F : Faithful c d calls e) : Faithful c d calls e.tick := ⟨F.size, F.same, F.held⟩

end Faithful

/-! ### Links -/

theorem Allowed.mono {m n : Nat} (h : m ≤ n) {l : String × Mode} (hl : Allowed c d calls m l) :
    Allowed c d calls n l := ⟨hl.requested, hl.need_lt.trans_le h, hl.untried⟩

theorem Setting.allowed (H : Setting c d calls) {template : String} {mode : Mode} {tree : Template}
    (hr : Requested c d calls template mode) (ht : Holds c d template tree) :
    ∀ l ∈ Node.links tree, Allowed c d calls (need c d template) l := by
  intro l hl
  exact ⟨.link hr ht hl, need_lt H.acyclic ht hl,
    fun dir hdir p hp => H.untried template mode tree _ _ dir p hr ht hl hdir hp⟩

namespace Emit

variable {J : Disk → Disk → Prop} {A : String × Mode → Prop} {env₁ env₂ : Env}

theorem emitTree_agrees (S : Similar J A env₁ env₂) (tree : Template) (mode : Mode)
    (h : ∀ l ∈ Node.links tree, A l) :
    Agrees (Alike J A) (Compiler.emitTree env₁ tree mode) (Compiler.emitTree env₂ tree mode) := by
  cases mode with
  | page => exact (page_agrees S tree h).map _
  | layout => exact (layout_agrees S tree h).map _

/-- The bodies that a compiled layout holds link as those left in the state do. -/
theorem emitTree_linksIn {env : Env} {tree : Template} {mode : Mode} {s s' : State} {out : Output}
    (h : exec (Compiler.emitTree env tree mode) s = (.ok out, s')) (hs : s'.blocks.LinksIn A) :
    out.toBlocks.LinksIn A := by
  cases mode with
  | page =>
    rw [Compiler.emitTree, exec_map] at h
    cases hr : (exec (page env tree) s).1 with
    | error e => simp [hr, Except.map] at h
    | ok code =>
      simp only [hr, Except.map, Prod.mk.injEq, Except.ok.injEq] at h
      rw [← h.1]
      simp [Output.toBlocks, BlockMap.empty, BlockMap.LinksIn]
  | layout =>
    rw [Compiler.emitTree, exec_map] at h
    rcases hr : exec (layout env tree) s with ⟨r, t⟩
    rw [hr] at h
    cases r with
    | error e => simp [Except.map] at h
    | ok m =>
      simp only [Except.map, Prod.mk.injEq, Except.ok.injEq] at h
      obtain ⟨rfl, rfl⟩ := h
      rcases layout_cases hr with rfl | ⟨entries, rfl⟩
      · exact hs
      · exact blocksOf_linksIn A entries

/-- Compilers that differ in when they use compiled files again emit alike, if
they compile the templates named in `A` alike. -/
theorem similar_tuned (c : Compiler) (source : String) {always stat always' stat' : Bool}
    {nested₁ nested₂ : String → Mode → DiskM Output}
    (h : ∀ path mode, A (path, mode) → ∀ d e, J d e →
      AgreesAt J d e (nested₁ (c.viewPath d path) mode) (nested₂ (c.viewPath e path) mode) ∧
      ∀ output, (exec (nested₁ (c.viewPath d path) mode) d).1 = .ok output →
        output.toBlocks.LinksIn A) :
    Similar J A (.outer (c.tuned always stat) source nested₁)
      (.outer (c.tuned always' stat') source nested₂) :=
  .outer ⟨rfl, fun _ => rfl, fun _ _ _ => rfl, fun _ _ _ => rfl, fun _ => rfl, rfl, rfl, rfl, rfl, .pure _, h⟩

end Emit

/-! ### One template -/

theorem Compiler.mustCompile_of_vacant (c : Compiler) (template : String) {compiled : String}
    {place : Place} {e : Disk} (hl : e.locate compiled = .ok place) (hg : e.get? place = none) :
    c.mustCompile e template compiled := by
  have : e.changed? compiled = none := by simp [Disk.changed?, hl, hg]
  simp [mustCompile, this]

theorem fresh_of_pathError {template : String} {mode : Mode} {e : CompileError}
    (hc : c.compiledPath d template mode = .error e) : fresh c d template mode = .error e := by
  rw [fresh, ← Nat.sub_add_cancel (need_pos c d template), Compiler.exec_nestedWithin,
    Compiler.exec_compileWithin, hc]
  rfl

/-- Without a compiled file there is nothing to use again. -/
theorem fresh_eq (H : Setting c d calls) {template : String} {mode : Mode} {compiled : String}
    (hr : Requested c d calls template mode) (hc : c.compiledPath d template mode = .ok compiled) :
    fresh c d template mode =
      (exec (c.compileFileWith (c.nestedWithin (need c d template - 1)) template compiled mode) d).1 := by
  obtain ⟨place, hlocate, hnone⟩ := H.vacant template mode compiled hr hc
  rw [fresh, ← Nat.sub_add_cancel (need_pos c d template), Compiler.exec_nestedWithin,
    Compiler.exec_compileWithin]
  simp only [hc, c.mustCompile_of_vacant template hlocate hnone, ↓reduceIte, Nat.add_sub_cancel]
  generalize (exec (c.compileFileWith _ _ _ _) d).1 = r
  cases r <;> rfl

/-- Templates below a depth to which all are settled are compiled alike on faithful
disks. -/
theorem similar_settled (H : Setting c d calls) (source : String) {depth : Nat}
    (ih : ∀ t m, Requested c d calls t m → need c d t < depth → Settled c d calls t m)
    {n n' : Nat} (hn : depth ≤ n + 1) (hn' : depth ≤ n' + 1) {always stat always' stat' : Bool}
    (hs : Steady c d calls always stat) (hs' : Steady c d calls always' stat') :
    Emit.Similar (fun x y => Faithful c d calls x ∧ Faithful c d calls y) (Allowed c d calls depth)
      (.outer (c.tuned always stat) source ((c.tuned always stat).nestedWithin n))
      (.outer (c.tuned always' stat') source ((c.tuned always' stat').nestedWithin n')) := by
  refine Emit.similar_tuned c source ?_
  rintro path linked ⟨hreq, hlt, htry⟩ x y ⟨Fx, Fy⟩
  have view : ∀ z, Faithful c d calls z → c.viewPath z path = c.viewPath d path :=
    fun z Fz => c.viewPath_grown (Fz.grown H) htry
  have settled := ih _ _ hreq hlt
  have hx := settled.agrees n always stat x (by omega) hs Fx
  have hy := settled.agrees n' always' stat' y (by omega) hs' Fy
  rw [view x Fx, view y Fy]
  refine ⟨⟨hx.1.trans hy.1.symm, hx.2, hy.2⟩, fun output hout k ns hmem l hl => ?_⟩
  exact (settled.links output (hx.1 ▸ hout) k ns hmem l hl).mono hlt.le

/-- The compilation of a source agrees on faithful disks, if those of the
templates it names are settled. -/
theorem compileTree_agrees (H : Setting c d calls) {template text : String} {mode : Mode}
    (hr : Requested c d calls template mode) (hread : d.read template = .ok text)
    (ih : ∀ t m, Requested c d calls t m → need c d t < need c d template → Settled c d calls t m)
    {n n' : Nat} (hn : need c d template ≤ n + 1) (hn' : need c d template ≤ n' + 1)
    {always stat always' stat' : Bool} (hs : Steady c d calls always stat)
    (hs' : Steady c d calls always' stat') {e e' : Disk} (F : Faithful c d calls e)
    (F' : Faithful c d calls e') :
    AgreesAt (fun x y => Faithful c d calls x ∧ Faithful c d calls y) e e'
      ((c.tuned always stat).compileTree ((c.tuned always stat).nestedWithin n) text template mode)
      ((c.tuned always' stat').compileTree ((c.tuned always' stat').nestedWithin n') text template
        mode) ∧
    ∀ out, (exec ((c.tuned always stat).compileTree ((c.tuned always stat).nestedWithin n) text
      template mode) e).1 = .ok out →
      out.toBlocks.LinksIn (Allowed c d calls (need c d template)) := by
  have parse : ∀ a b, (c.tuned a b).parse text template = c.parse text template := fun _ _ => rfl
  unfold AgreesAt
  rw [Compiler.exec_compileTree, Compiler.exec_compileTree, parse, parse]
  cases hp : c.parse text template with
  | error err => exact ⟨⟨rfl, F, F'⟩, by simp⟩
  | ok tree =>
    have S := similar_settled H template ih hn hn' hs hs'
    obtain ⟨hres, e₁, hstate, hfaithful, hblocks, -⟩ :=
      Emit.emitTree_agrees S tree mode (H.allowed hr ⟨text, hread, hp⟩)
        (.initial c.options.autoescape e) (.initial c.options.autoescape e')
        (Emit.alike_initial _ ⟨F, F'⟩)
    refine ⟨⟨hres, hfaithful.1, ?_⟩, fun out hout => ?_⟩
    · show Faithful c d calls
        (exec (Compiler.emitTree _ tree mode) (.initial c.options.autoescape e')).2.disk
      rw [hstate]
      exact hfaithful.2
    · exact Emit.emitTree_linksIn (Prod.ext hout rfl) hblocks.1

/-- Compiling a template anew on a faithful disk gives what it gives on the first
disk, and leaves a faithful disk. -/
theorem compileFile_settled (H : Setting c d calls) (clear : Clear c d calls) {template : String}
    {mode : Mode} {compiled : String} (hr : Requested c d calls template mode)
    (hc : c.compiledPath d template mode = .ok compiled)
    (ih : ∀ t m, Requested c d calls t m → need c d t < need c d template → Settled c d calls t m)
    {n : Nat} (hn : need c d template ≤ n + 1) {always stat : Bool}
    (hs : Steady c d calls always stat) {e : Disk} (F : Faithful c d calls e) :
    (exec ((c.tuned always stat).compileFileWith ((c.tuned always stat).nestedWithin n) template
        compiled mode) e).1 = fresh c d template mode ∧
      Faithful c d calls (exec ((c.tuned always stat).compileFileWith
        ((c.tuned always stat).nestedWithin n) template compiled mode) e).2 := by
  obtain ⟨place, hlocate, -⟩ := H.vacant template mode compiled hr hc
  have kept : Kept c d calls place := ⟨template, mode, hr, compiled, hc, hlocate⟩
  have hread : e.read template = d.read template :=
    (F.grown H).read_eq fun q hq => clear template mode q hr hq
  have hfresh := fresh_eq H hr hc
  rw [Compiler.exec_compileFileWith] at hfresh ⊢
  rw [hread]
  by_cases hsame : Path.same template compiled
  · rw [if_pos hsame] at hfresh ⊢
    exact ⟨hfresh.symm, F⟩
  · rw [if_neg hsame] at hfresh ⊢
    cases hd : d.read template with
    | error why =>
      rw [hd] at hfresh
      rcases why with ⟨⟨⟩⟩ | _ <;> exact ⟨hfresh.symm, F⟩
    | ok text =>
      rw [hd] at hfresh
      dsimp only at hfresh ⊢
      obtain ⟨⟨hres, Fe, Fd⟩, -⟩ := compileTree_agrees H hr hd ih hn
        (show need c d template ≤ need c d template - 1 + 1 by omega) hs
        (fun _ _ _ => rfl : Steady c d calls c.options.always c.options.stat) F (.refl H)
      -- a compiler tuned to its own options is itself
      change _ = (exec (c.compileTree (c.nestedWithin (need c d template - 1)) text template mode) d).1
        at hres
      change Faithful c d calls
        (exec (c.compileTree (c.nestedWithin (need c d template - 1)) text template mode) d).2 at Fd
      rcases he : exec ((c.tuned always stat).compileTree ((c.tuned always stat).nestedWithin n) text
        template mode) e with ⟨r, e'⟩
      rcases hd' : exec (c.compileTree (c.nestedWithin (need c d template - 1)) text template mode) d
        with ⟨r', d'⟩
      rw [he] at hres Fe
      rw [hd'] at hres Fd hfresh
      cases hres
      cases r with
      | error err => exact ⟨hfresh.symm, Fe⟩
      | ok out =>
        -- both disks have room for the compiled file
        simp only [Compiler.store, (Fd.grown H).save?_eq hlocate kept] at hfresh
        simp only [Compiler.store, (Fe.grown H).save?_eq hlocate kept]
        exact ⟨hfresh.symm, (Fe.put H hr ⟨compiled, hc, hlocate⟩ hfresh _).tick⟩

/-! ### Using a compiled file again -/

theorem BlockMap.text_not_blank (m : BlockMap) : Text.isBlankText m.text = false := by
  simp [Text.isBlankText, BlockMap.text, BlockMap.json, Json.render, Json.chars, Text.isWhiteSpace]

/-- A compiled file that holds an output gives it back. -/
theorem Compiler.load_stored {e : Disk} {compiled : String} {out : Output}
    (h : e.read compiled = .ok out.stored)
    (codec : ∀ m, out = .blocks m → BlockMap.parse? m.text = some m) :
    load e compiled out.mode = .ok out := by
  unfold load
  rw [h]
  cases out with
  | code code => rfl
  | blocks m => simp [Output.mode, Output.stored, m.text_not_blank, codec m rfl]

/-- What a successful compilation on the first disk has read and emitted. -/
theorem fresh_ok (H : Setting c d calls) {template : String} {mode : Mode} {out : Output}
    (hr : Requested c d calls template mode) (hf : fresh c d template mode = .ok out) :
    ∃ text, d.read template = .ok text ∧
      (exec (c.compileTree (c.nestedWithin (need c d template - 1)) text template mode) d).1 =
        .ok out := by
  cases hc : c.compiledPath d template mode with
  | error e =>
    rw [fresh_of_pathError hc] at hf
    cases hf
  | ok compiled =>
    rw [fresh_eq H hr hc] at hf
    obtain ⟨-, text, d₁, hread, htree, -⟩ := Compiler.compileFileWith_ok (Prod.ext hf rfl)
    exact ⟨text, hread, congrArg Prod.fst htree⟩

theorem fresh_mode (H : Setting c d calls) {template : String} {mode : Mode} {out : Output}
    (hr : Requested c d calls template mode) (hf : fresh c d template mode = .ok out) :
    out.mode = mode := by
  obtain ⟨text, -, htree⟩ := fresh_ok H hr hf
  obtain ⟨tree, s, -, hemit, -⟩ := Compiler.compileTree_ok (Prod.ext htree rfl)
  exact Compiler.emitTree_mode hemit

/-- A compiled file on a faithful disk can be used again. -/
theorem load_settled (H : Setting c d calls) {template : String} {mode : Mode} {compiled : String}
    (hr : Requested c d calls template mode) (hc : c.compiledPath d template mode = .ok compiled)
    (codec : ∀ m, fresh c d template mode = .ok (.blocks m) → BlockMap.parse? m.text = some m)
    {e : Disk} (F : Faithful c d calls e) {c' : Compiler}
    (hm : ¬ c'.mustCompile e template compiled) :
    Compiler.load e compiled mode = fresh c d template mode := by
  obtain ⟨place, hlocate, -⟩ := H.vacant template mode compiled hr hc
  have hlocate' := ((F.grown H).locate_ok_iff compiled).2 hlocate
  rcases F.held template mode place hr ⟨compiled, hc, hlocate⟩ with hnone | ⟨out, time, hf, hfile⟩
  · exact absurd (c'.mustCompile_of_vacant template hlocate' hnone) hm
  · have hread : e.read compiled = .ok out.stored := by simp [Disk.read, hlocate', hfile]
    rw [hf, ← fresh_mode H hr hf]
    exact Compiler.load_stored hread fun m hm => codec m (hm ▸ hf)

/-! ### All templates -/

/-- A template is settled if all templates it names are. -/
theorem settled_of_links (H : Setting c d calls) (clear : Clear c d calls) {template : String}
    {mode : Mode} (hr : Requested c d calls template mode)
    (ih : ∀ t m, Requested c d calls t m → need c d t < need c d template → Settled c d calls t m) :
    Settled c d calls template mode := by
  have own : Steady c d calls c.options.always c.options.stat := fun _ _ _ => rfl
  -- at the first disk, where there is no compiled file yet, the depth does not matter
  have codec : ∀ m, fresh c d template mode = .ok (.blocks m) → BlockMap.parse? m.text = some m := by
    intro m hm
    have hmode : Mode.layout = mode := fresh_mode H hr hm
    subst hmode
    refine H.codec template m hr ?_
    have hlimit : Compiler.nestingLimit d = Compiler.nestingLimit d - 1 + 1 := rfl
    cases hc : c.compiledPath d template .layout with
    | error e =>
      rw [fresh_of_pathError hc] at hm
      cases hm
    | ok compiled =>
      obtain ⟨place, hlocate, hnone⟩ := H.vacant template .layout compiled hr hc
      have hanew := (compileFile_settled H clear hr hc ih
        (show need c d template ≤ Compiler.nestingLimit d - 1 + 1 from
          need_le_nestingLimit c d template) own (.refl H)).1
      rw [Compiler.exec_compile, hlimit, Compiler.exec_compileWithin, hc]
      simp only [c.mustCompile_of_vacant template hlocate hnone, ↓reduceIte]
      change (exec (c.compileFileWith (c.nestedWithin _) _ _ _) d).1 = _ at hanew
      rw [hanew, hm]
      rfl
  refine ⟨fun out hout => ?_, fun n always stat e hn hs F => ?_⟩
  · obtain ⟨text, hread, htree⟩ := fresh_ok H hr hout
    have hneed : need c d template ≤ need c d template - 1 + 1 := by omega
    exact (compileTree_agrees H hr hread ih hneed hneed own own (.refl H) (.refl H)).2 out htree
  · have hpath : (c.tuned always stat).compiledPath e template mode =
        c.compiledPath d template mode := by
      rw [← hs template mode hr]
      exact (c.tuned always stat).compiledPath_grown (F.grown H)
        (fun q hq => H.unnamed template mode q hr hq) mode
    have hpos := need_pos c d template
    obtain ⟨n, rfl⟩ : ∃ k, n = k + 1 := ⟨n - 1, by omega⟩
    rw [Compiler.exec_nestedWithin, Compiler.exec_compileWithin, hpath]
    cases hc : c.compiledPath d template mode with
    | error err =>
      exact ⟨(fresh_of_pathError hc).symm, F⟩
    | ok compiled =>
      dsimp only
      by_cases hm : (c.tuned always stat).mustCompile e template compiled
      · rw [if_pos hm]
        obtain ⟨hres, F'⟩ := compileFile_settled H clear hr hc ih hn hs F
        refine ⟨?_, F'⟩
        rw [hres]
        cases fresh c d template mode <;> rfl
      · rw [if_neg hm, load_settled H hr hc codec F hm]
        refine ⟨?_, F⟩
        cases fresh c d template mode <;> rfl

/-- Every template of a session is settled, by induction on how deep its
compilation goes. -/
theorem settled (H : Setting c d calls) (clear : Clear c d calls) :
    ∀ template mode, Requested c d calls template mode → Settled c d calls template mode := by
  have below : ∀ n template mode, Requested c d calls template mode → need c d template < n →
      Settled c d calls template mode := by
    intro n
    induction n with
    | zero => intro template mode _ h; omega
    | succ n ih =>
      intro template mode hr h
      exact settled_of_links H clear hr fun t m hr' ht => ih t m hr' (by omega)
  intro template mode hr
  exact below _ template mode hr (Nat.lt_succ_self _)

end Stencil
