/-
# What a compilation writes

A template that extends or includes others has them compiled on the way, each to its
own file, before it is known whether it compiles itself. So a compilation that fails
may still have written files. Each of them is the compiled file of a template that was
reached, and holds what compiling that template gave; the file asked for is written
last, and only on success.

The nested compilations of one template are jobs, each on the disk the last one left.
Which jobs there are is read off the tree (`Linked`): its own links, and those in the
bodies that an extended layout brings along. An emission ends on a disk that jobs have
led to (`Seen`), by the pass over the tree in `Emit.Similar`, and what a job changes is
found by induction on how deep compilations may go.

Key definitions: `Job`, `Seen`, `Linked`, `Reached`, `Job.Wrote`.
Key theorems: `emission_seen`, `Job.frame`, `compileFile_writes`.
-/
import Stencil.Proofs.JsonText
import Stencil.Proofs.Session
import Stencil.Proofs.Transparency

namespace Stencil

/-! ### Jobs -/

/-- A compilation of a template that another one names, and the disk it starts from. -/
structure Job where
  depth : Nat
  disk : Disk
  template : String
  mode : Mode

namespace Job

/-- What the compilation gives, and the disk it leaves. -/
def run (c : Compiler) (j : Job) : Except CompileError Compilation × Disk :=
  exec (c.compileWithin j.depth j.template j.mode) j.disk

/-- The job on the disk `e` for a link of a template. -/
def ofLink (c : Compiler) (limit : Disk → Nat) (e : Disk) (l : String × Mode) : Job :=
  ⟨limit e, e, c.viewPath e l.1, l.2⟩

/-- The template has to be compiled: there is no compiled file to use again. -/
def Anew (c : Compiler) (j : Job) : Prop :=
  ∃ compiled, c.compiledPath j.disk j.template j.mode = .ok compiled ∧
    c.mustCompile j.disk j.template compiled = true

/-- The compiled file of the job's template is at the place. -/
def CompiledTo (c : Compiler) (j : Job) (place : Place) : Prop :=
  CompiledAt c j.disk j.template j.mode place

/-- The job succeeds in compiling its template, whose compiled file at the place is to
hold the output, saved at a time of the job's clock. -/
def Wrote (c : Compiler) (j : Job) (place : Place) (item : Item) : Prop :=
  ∃ result n, (j.run c).1 = .ok result ∧ result.recompiled = true ∧ j.CompiledTo c place ∧
    item = .file (.text result.output.stored) (j.disk.clock n)

end Job

mutual

/-- The disks that compiling a tree on `d` may come to between its jobs. -/
inductive Seen (c : Compiler) (limit : Disk → Nat) (d : Disk) (tree : Template) : Disk → Prop
  | start : Seen c limit d tree d
  | next {e : Disk} {l : String × Mode} : Seen c limit d tree e → Linked c limit d tree l →
    Seen c limit d tree ((Job.ofLink c limit e l).run c).2

/-- The templates that compiling a tree may name, and their modes: those the tree names
by a literal, and those that the blocks of such a layout name. -/
inductive Linked (c : Compiler) (limit : Disk → Nat) (d : Disk) (tree : Template) :
    String × Mode → Prop
  | own {l : String × Mode} : l ∈ Node.links tree → Linked c limit d tree l
  | inherited {e : Disk} {l l' : String × Mode} {result : Compilation} {key : BlockKey}
    {body : List Node} : Seen c limit d tree e → Linked c limit d tree l →
    ((Job.ofLink c limit e l).run c).1 = .ok result →
    (key, .nodes body) ∈ result.output.toBlocks.entries → l' ∈ Node.links body →
    Linked c limit d tree l'

end

/-- The jobs that compiling a template on `d` may lead to: those for its links, and
those of templates that have to be compiled for them. -/
inductive Reached (c : Compiler) : (limit : Disk → Nat) → Disk → String → Job → Prop
  | named {limit : Disk → Nat} {d e : Disk} {template : String} {tree : Template}
    {l : String × Mode} : Holds c d template tree → Seen c limit d tree e →
    Linked c limit d tree l → Reached c limit d template (.ofLink c limit e l)
  | through {limit : Disk → Nat} {d : Disk} {template : String} {j j' : Job} :
    Reached c limit d template j → j.Anew c →
    Reached c (fun _ => j.depth - 1) j.disk j.template j' → Reached c limit d template j'

variable {c : Compiler} {limit : Disk → Nat} {d : Disk} {template : String} {tree : Template}

/-! ### The disks of an emission -/

/-- Nested compilations keep to the disks and links of the jobs. -/
theorem similar_seen (source : String) {nested : String → Mode → DiskM Output}
    (hnested : ∀ e path mode, exec (nested path mode) e =
      exec (c.nestedWithin (limit e) path mode) e) :
    Emit.Similar (fun x y => x = y ∧ Seen c limit d tree x) (Linked c limit d tree)
      (.outer c source nested) (.outer c source nested) := by
  refine .outer ⟨rfl, fun _ => rfl, fun _ _ _ => rfl, fun _ _ _ => rfl, fun _ => rfl, rfl,
    rfl, rfl, rfl,
    .pure _, ?_⟩
  rintro path mode hl e _ ⟨rfl, he⟩
  have hrun : exec (nested (c.viewPath e path) mode) e =
      (((Job.ofLink c limit e (path, mode)).run c).1.map (·.output),
        ((Job.ofLink c limit e (path, mode)).run c).2) := by
    rw [hnested, Compiler.exec_nestedWithin]
    rfl
  refine ⟨⟨rfl, rfl, ?_⟩, fun output hout key body hbody l' hl' => ?_⟩
  · show Seen c limit d tree (exec (nested (c.viewPath e path) mode) e).2
    rw [hrun]
    exact .next he hl
  · change (exec (nested (c.viewPath e path) mode) e).1 = .ok output at hout
    rw [hrun] at hout
    cases hr : ((Job.ofLink c limit e (path, mode)).run c).1 with
    | error err => simp [hr, Except.map] at hout
    | ok result =>
      simp only [hr, Except.map, Except.ok.injEq] at hout
      subst hout
      exact .inherited he hl hr hbody hl'

/-- An emission ends, whether or not it fails, on a disk that its jobs have led to. -/
theorem emission_seen {nested : String → Mode → DiskM Output}
    (hnested : ∀ e path mode, exec (nested path mode) e =
      exec (c.nestedWithin (limit e) path mode) e)
    {text source : String} {mode : Mode} (hparse : c.parse text source = .ok tree) :
    Seen c limit d tree (exec (c.compileTree nested text source mode) d).2 := by
  rw [Compiler.exec_compileTree, hparse]
  have similar : Emit.Similar (fun x y => x = y ∧ Seen c limit d tree x) (Linked c limit d tree)
      (.outer c source nested) (.outer c source nested) := similar_seen source hnested
  obtain ⟨-, e, -, ⟨-, hseen⟩, -⟩ :=
    Emit.emitTree_agrees similar tree mode (fun _ => .own) (.initial c.options.autoescape d)
      (.initial c.options.autoescape d) (Emit.alike_initial _ ⟨rfl, .start⟩)
  exact hseen

/-! ### What jobs change -/

/-- The disk `e` is `d` with compiled files written by jobs that the template reaches. -/
structure Changed (c : Compiler) (limit : Disk → Nat) (d : Disk) (template : String) (e : Disk) :
    Prop where
  dirs : d.SameDirs e
  later : d.Later e
  wrote : ∀ p, e.get? p ≠ d.get? p →
    ∃ j item, Reached c limit d template j ∧ j.Wrote c p item ∧ e.get? p = some item

theorem Changed.refl (c : Compiler) (limit : Disk → Nat) (d : Disk) (template : String) :
    Changed c limit d template d := ⟨.refl d, .refl d, fun _ h => absurd rfl h⟩

/-- What a job may change: its own compiled file, and those of the jobs it leads to. -/
structure Job.Frame (c : Compiler) (j : Job) : Prop where
  dirs : j.disk.SameDirs (j.run c).2
  later : j.disk.Later (j.run c).2
  wrote : ∀ p, (j.run c).2.get? p ≠ j.disk.get? p →
    ∃ item, (j.run c).2.get? p = some item ∧
      (j.Wrote c p item ∨ j.Anew c ∧
        ∃ j', Reached c (fun _ => j.depth - 1) j.disk j.template j' ∧ j'.Wrote c p item)

/-- One job after another, the last one to change a place says what stands there. -/
theorem Seen.changed (frame : ∀ e l, (Job.ofLink c limit e l).Frame c)
    (hholds : Holds c d template tree) :
    ∀ {e : Disk}, Seen c limit d tree e → Changed c limit d template e
  | _, .start => .refl ..
  | _, @next _ _ _ _ e l he hl => by
    have before := Seen.changed frame hholds he
    have F := frame e l
    have hreached : Reached c limit d template (.ofLink c limit e l) := .named hholds he hl
    refine ⟨before.dirs.trans F.dirs, before.later.trans F.later, fun p hp => ?_⟩
    by_cases hlast : ((Job.ofLink c limit e l).run c).2.get? p = e.get? p
    · rw [hlast] at hp ⊢
      exact before.wrote p hp
    · obtain ⟨item, hitem, hown | ⟨hanew, j', hj', hwrote⟩⟩ := F.wrote p hlast
      · exact ⟨_, item, hreached, hown, hitem⟩
      · exact ⟨j', item, .through hreached hanew hj', hwrote, hitem⟩

/-- A template compiled to a file: its jobs change what they change, and then, on
success only, the file is written. -/
theorem compileFileWith_changed {nested : String → Mode → DiskM Output}
    (hnested : ∀ e path mode, exec (nested path mode) e =
      exec (c.nestedWithin (limit e) path mode) e)
    (frame : ∀ e l, (Job.ofLink c limit e l).Frame c) (template compiled : String) (mode : Mode)
    (d : Disk) :
    ∃ e, Changed c limit d template e ∧
      (((∃ err, (exec (c.compileFileWith nested template compiled mode) d).1 = .error err) ∧
          (exec (c.compileFileWith nested template compiled mode) d).2 = e) ∨
        ∃ out place, (exec (c.compileFileWith nested template compiled mode) d).1 = .ok out ∧
          e.locate compiled = .ok place ∧
          e.Written place (.file (.text out.stored) e.now)
            (exec (c.compileFileWith nested template compiled mode) d).2 ∧
          e.Later (exec (c.compileFileWith nested template compiled mode) d).2) := by
  rw [Compiler.exec_compileFileWith]
  split
  · exact ⟨d, .refl .., .inl ⟨⟨_, rfl⟩, rfl⟩⟩
  · split
    · exact ⟨d, .refl .., .inl ⟨⟨_, rfl⟩, rfl⟩⟩
    · exact ⟨d, .refl .., .inl ⟨⟨_, rfl⟩, rfl⟩⟩
    · rename_i text hread
      have changed : Changed c limit d template
          (exec (c.compileTree nested text template mode) d).2 := by
        cases hparse : c.parse text template with
        | error err =>
          rw [Compiler.exec_compileTree, hparse]
          exact .refl ..
        | ok tree => exact (emission_seen hnested hparse).changed frame ⟨text, hread, hparse⟩
      rcases htree : exec (c.compileTree nested text template mode) d with ⟨r, e⟩
      rw [htree] at changed
      refine ⟨e, changed, ?_⟩
      cases r with
      | error err => exact .inl ⟨⟨err, rfl⟩, rfl⟩
      | ok out =>
        dsimp only [Compiler.store]
        cases hw : e.save? compiled (.text out.stored) with
        | none => exact .inl ⟨⟨_, rfl⟩, rfl⟩
        | some e' =>
          obtain ⟨place, hl, W, hlater⟩ := Disk.written_of_save? hw
          exact .inr ⟨out, place, rfl, hl, W, hlater⟩

/-- A job that leaves the disk as it is changes nothing. -/
theorem Job.Frame.of_unchanged {j : Job} (h : (j.run c).2 = j.disk) : j.Frame c := by
  refine ⟨?_, ?_, fun p hp => absurd ?_ hp⟩ <;> rw [h]
  · exact .refl _
  · exact .refl _

/-- What a job changes, by induction on how deep its own jobs may go. -/
theorem Job.frame (c : Compiler) (j : Job) : j.Frame c := by
  obtain ⟨depth, d, template, mode⟩ := j
  induction depth generalizing d template mode with
  | zero => exact .of_unchanged rfl
  | succ depth ih =>
    set j : Job := ⟨depth + 1, d, template, mode⟩ with hj
    have hrun : j.run c = exec (c.compileWithin (depth + 1) template mode) d := rfl
    rw [Compiler.exec_compileWithin] at hrun
    cases hpath : c.compiledPath d template mode with
    | error err =>
      rw [hpath] at hrun
      exact .of_unchanged (by rw [hrun])
    | ok compiled =>
      rw [hpath] at hrun
      dsimp only at hrun
      by_cases hmust : c.mustCompile d template compiled
      · rw [if_pos hmust] at hrun
        have hanew : j.Anew c := ⟨compiled, hpath, hmust⟩
        obtain ⟨e, changed, ⟨-, he⟩ | ⟨out, place, hout, hl, W, hlater⟩⟩ :=
          compileFileWith_changed (fun _ _ _ => rfl) (fun e l => ih e _ _) template compiled mode d
        · have hleft : (j.run c).2 = e := by rw [hrun, he]
          rw [← hleft] at changed
          refine ⟨changed.dirs, changed.later, fun p hp => ?_⟩
          obtain ⟨j', item, hj', hwrote, hitem⟩ := changed.wrote p hp
          exact ⟨item, hitem, .inr ⟨hanew, j', hj', hwrote⟩⟩
        · have hresult : (j.run c).1 = .ok ⟨out, compiled, true⟩ := by rw [hrun, hout]; rfl
          have hleft : (j.run c).2 =
            (exec (c.compileFileWith (c.nestedWithin depth) template compiled mode) d).2 := by
            rw [hrun]
          rw [← hleft] at W hlater
          refine ⟨changed.dirs.trans W.dirs, changed.later.trans hlater, fun p hp => ?_⟩
          by_cases hown : p = place
          · subst hown
            obtain ⟨n, hnow⟩ := changed.later.now_eq
            rw [hnow] at W
            refine ⟨_, W.there, .inl ⟨_, n, hresult, rfl, ⟨compiled, hpath, ?_⟩, rfl⟩⟩
            exact (changed.dirs.locate_ok_iff compiled).1 hl
          · rw [W.elsewhere p hown] at hp ⊢
            obtain ⟨j', item, hj', hwrote, hitem⟩ := changed.wrote p hp
            exact ⟨item, hitem, .inr ⟨hanew, j', hj', hwrote⟩⟩
      · rw [if_neg hmust] at hrun
        exact .of_unchanged (by rw [hrun])

/-- Jobs make and remove no directory, and the clock goes on. -/
theorem Reached.since {j : Job} (h : Reached c limit d template j) :
    d.SameDirs j.disk ∧ d.Later j.disk := by
  induction h with
  | named hholds hseen _ =>
    have changed := hseen.changed (fun _ _ => Job.frame _ _) hholds
    exact ⟨changed.dirs, changed.later⟩
  | through _ _ _ ih ih' => exact ⟨ih.1.trans ih'.1, ih.2.trans ih'.2⟩

/-- **What a compilation may write.** Compiling a template to a file leaves the file as
it was if it fails and no job reached on the way has its compiled file there. If it
succeeds the file holds the output. Every other place that changed is that of the
compiled file of a job that succeeded, and holds its output, saved at a time of the
clock. -/
theorem compileFile_writes (c : Compiler) (template compiled : String) (mode : Mode) (d d' : Disk)
    (r : Except CompileError Output)
    (hrun : exec (c.compileFile template compiled mode) d = (r, d')) :
    (∀ err, r = .error err →
      (∀ j place, Reached c Compiler.nestingLimit d template j → j.CompiledTo c place →
        d.locate compiled ≠ .ok place) →
      d'.find? compiled = d.find? compiled) ∧
    (∀ out, r = .ok out → out.mode = mode ∧ d'.read compiled = .ok out.stored) ∧
    ∀ place, d'.get? place ≠ d.get? place →
      (∃ out, r = .ok out ∧ d'.locate compiled = .ok place) ∨
        ∃ j result n, Reached c Compiler.nestingLimit d template j ∧ (j.run c).1 = .ok result ∧
          result.recompiled = true ∧ j.CompiledTo c place ∧
          d'.get? place = some (.file (.text result.output.stored) (d.clock n)) := by
  have hnested : ∀ e path mode,
      exec (c.nested path mode) e = exec (c.nestedWithin (Compiler.nestingLimit e) path mode) e :=
    fun e path mode => by
      rw [Compiler.nested, exec_bind, exec_get, Compiler.nestedWithin, ← bind_pure_comp]
  obtain ⟨e, changed, h⟩ :=
    compileFileWith_changed hnested (fun e l => Job.frame c _) template compiled mode d
  change exec (c.compileFileWith c.nested template compiled mode) d = _ at hrun
  rw [hrun] at h
  have reached : ∀ place, e.get? place ≠ d.get? place →
      ∃ j result n, Reached c Compiler.nestingLimit d template j ∧ (j.run c).1 = .ok result ∧
        result.recompiled = true ∧ j.CompiledTo c place ∧
        e.get? place = some (.file (.text result.output.stored) (d.clock n)) := by
    intro place hp
    obtain ⟨j, item, hj, ⟨result, n, hresult, hanew, hto, rfl⟩, hitem⟩ := changed.wrote place hp
    obtain ⟨k, hclock⟩ := hj.since.2
    exact ⟨j, result, k + n, hj, hresult, hanew, hto, hclock n ▸ hitem⟩
  obtain ⟨⟨err, rfl⟩, rfl⟩ | ⟨out, place, rfl, hl, W, -⟩ := h
  · refine ⟨fun _ _ hnone => ?_, ?_, fun place hp => .inr (reached place hp)⟩
    · refine changed.dirs.find?_eq fun place hl => ?_
      by_contra hp
      obtain ⟨j, result, n, hj, -, -, hto, -⟩ := reached place hp
      exact hnone j place hj hto hl
    · rintro _ ⟨⟩
  · refine ⟨?_, ?_, fun p hp => ?_⟩
    · rintro _ ⟨⟩
    · rintro _ ⟨⟩
      obtain ⟨-, text, d₁, -, htree, -⟩ := Compiler.compileFileWith_ok hrun
      obtain ⟨tree, s, -, hemit, -⟩ := Compiler.compileTree_ok htree
      exact ⟨Compiler.emitTree_mode hemit, W.read_eq hl⟩
    · by_cases hown : p = place
      · exact .inl ⟨out, rfl, (W.dirs.locate_ok_iff compiled).2 (hown ▸ hl)⟩
      · rw [W.elsewhere p hown] at hp ⊢
        exact .inr (reached p hp)

/-! ### A house that fails after its porch -/

/-- A template that names none leads to no job. -/
theorem not_linked_of_no_links (h : Node.links tree = []) : ∀ {l}, ¬ Linked c limit d tree l
  | _, .own hl => by simp [h] at hl
  | _, .inherited _ hl _ _ _ => not_linked_of_no_links h hl

theorem not_reached_of_no_links (h : ∀ tree, Holds c d template tree → Node.links tree = [])
    {j : Job} :
    ¬ Reached c limit d template j := by
  intro hj
  induction hj with
  | named ht _ hl => exact not_linked_of_no_links (h _ ht) hl
  | through _ _ _ ih _ => exact ih h

namespace Porch

/-- A page that extends a layout and then has something unknown. -/
def house : Template :=
  [.mk (.extending (some (.str "porch"))) .unknown, .mk .unknown ⟨none, some 2⟩]

/-- A layout with a block after a text. -/
def porch : Template :=
  [.mk (.text "steps") .unknown, .mk (.block "door" [.mk (.text "oak") .unknown]) .unknown]

/-- A compiler that reads the house and the porch. -/
def compiler : Compiler :=
  { Compiler.initial with parse := fun text _ => .ok (if text = "H" then house else porch) }

/-- The house has been compiled before, long ago. -/
def disk : Disk :=
  { Disk.empty with
    items := [(["w", "house"], .file (.text "H") 1000), (["w", "porch"], .file (.text "P") 1000),
      (["w", "house.php"], .file (.text "old") 500)] }

/-- What the porch compiles to. -/
def blocks : BlockMap :=
  ⟨[(.position 0, .code "steps"), (.name "door", .nodes [.mk (.text "oak") .unknown])], 1⟩

theorem parse?_blocks : BlockMap.parse? blocks.text = some blocks := by
  have json : blocks.json = .arr [.obj [("position", .int 0), ("code", .str "steps")],
    .obj [("name", .str "door"),
      ("nodes", .arr [.obj [("type", .str "text"), ("value", .str "oak")]])]] := rfl
  have readable : blocks.json.Every Json.Readable := by
    rw [json]
    simp [Json.Every, Json.leaves, Json.leavesItems, Json.leavesMembers, Json.Readable]
  rw [BlockMap.parse?, BlockMap.text, Json.parse?_render (by decide) readable, json]
  rfl

/-- The disk after the porch has been compiled. -/
def after : Disk :=
  (disk.put ["w", "porch%%e%%.php"] (.file (.text blocks.text) disk.now)).tick

theorem compile_porch (depth : Nat) :
    exec (compiler.compileWithin (depth + 1) "porch" .layout) disk =
      (.ok ⟨.blocks blocks, "porch%%e%%.php", true⟩, after) := rfl

theorem compile_porch_again (depth : Nat) :
    exec (compiler.compileWithin (depth + 1) "porch" .layout) after =
      (.ok ⟨.blocks blocks, "porch%%e%%.php", false⟩, after) := by
  have kept : compiler.mustCompile after "porch" "porch%%e%%.php" = false := by decide +kernel
  have path : compiler.compiledPath after "porch" .layout = .ok "porch%%e%%.php" := rfl
  have read : after.read "porch%%e%%.php" = .ok (Output.blocks blocks).stored := rfl
  have load : Compiler.load after "porch%%e%%.php" .layout = .ok (.blocks blocks) := by
    refine @Compiler.load_stored after _ (.blocks blocks) read ?_
    rintro _ ⟨⟩
    exact parse?_blocks
  rw [Compiler.exec_compileWithin, path]
  dsimp only
  rw [if_neg (by simp [kept]), load]
  rfl

/-- The porch is compiled before the house fails. -/
theorem compileTree_house {nested : String → Mode → DiskM Output}
    (h : exec (nested "porch" .layout) disk = (.ok (.blocks blocks), after)) :
    exec (compiler.compileTree nested "H" "house" .page) disk =
      (.error (.unknownStatement ⟨"house", some 2⟩), after) := by
  have parse : compiler.parse "H" "house" = .ok house := rfl
  have silent : ∀ n, compiler.handled (·.statement n) = none := fun _ => rfl
  have view : compiler.viewPath disk "porch" = "porch" := rfl
  rw [Compiler.exec_compileTree, parse]
  dsimp only
  rw [Compiler.exec_emit]
  simp [Compiler.emitTree, exec_map, Emit.page, Emit.list, house, Emit.sequence, Emit.nodes,
    Emit.stmt, exec_bind, Emit.step, Emit.inList, Emit.inStmt, Emit.exec_within, Emit.place,
    Emit.extendView, Emit.exec_onDisk, h, Node.stmt, Node.pos, Emit.Env.outer, silent, view,
    Emit.State.initial, Emit.exec_fail, Except.map, Location.of]

theorem compileFile_house : exec (compiler.compileFile "house" "house.php" .page) disk =
    (.error (.unknownStatement ⟨"house", some 2⟩), after) := by
  have apart : Path.same "house" "house.php" = false := by decide +kernel
  have read : disk.read "house" = .ok "H" := rfl
  have nested : exec (compiler.nested "porch" .layout) disk = (.ok (.blocks blocks), after) := by
    have limit : Compiler.nestingLimit disk = 69 + 1 := rfl
    rw [Compiler.nested, exec_bind, exec_get]
    dsimp only
    rw [exec_bind, limit, compile_porch]
    rfl
  rw [Compiler.compileFile, Compiler.exec_compileFileWith, if_neg (by simp [apart]), read]
  dsimp only
  rw [compileTree_house nested]

/-- Whether or not it has been compiled before, the porch compiles to its blocks. -/
theorem run_porch {e : Disk} (he : e = disk ∨ e = after) :
    ∃ anew, (Job.ofLink compiler Compiler.nestingLimit e ("porch", .layout)).run compiler =
      (.ok ⟨.blocks blocks, "porch%%e%%.php", anew⟩, after) := by
  rcases he with rfl | rfl
  · exact ⟨true, compile_porch 69⟩
  · exact ⟨false, compile_porch_again 71⟩

mutual

theorem seen_cases :
    ∀ {e : Disk}, Seen compiler Compiler.nestingLimit disk house e → e = disk ∨ e = after
  | _, .start => .inl rfl
  | _, .next he hl => by
    cases linked_eq hl
    obtain ⟨anew, hrun⟩ := run_porch (seen_cases he)
    exact .inr (congrArg Prod.snd hrun)

theorem linked_eq : ∀ {l : String × Mode}, Linked compiler Compiler.nestingLimit disk house l →
    l = ("porch", .layout)
  | _, .own hl => by
    simpa [house, Node.links, Node.statements, Stmt.statements, Stmt.link?] using hl
  | _, .inherited he hl hr hbody hl' => by
    -- the one block of the porch names no template
    cases linked_eq hl
    obtain ⟨anew, hrun⟩ := run_porch (seen_cases he)
    rw [hrun] at hr
    cases hr
    simp only [Output.toBlocks, blocks, List.mem_cons, Prod.mk.injEq, reduceCtorEq, and_false,
      false_or, List.not_mem_nil, or_false, BlockBody.nodes.injEq] at hbody
    rw [hbody.2] at hl'
    cases hl'

end

/-- The porch is all that is reached from the house. -/
theorem reached_cases {j : Job} (h : Reached compiler Compiler.nestingLimit disk "house" j) :
    ∃ e, (e = disk ∨ e = after) ∧
      j = .ofLink compiler Compiler.nestingLimit e ("porch", .layout) := by
  generalize hlimit : Compiler.nestingLimit = limit at h
  generalize hd : disk = d at h
  generalize ht : "house" = template at h
  induction h with
  | named hholds he hl =>
    subst hlimit hd ht
    obtain ⟨text, hread, hparse⟩ := hholds
    cases hread
    cases hparse
    cases linked_eq hl
    exact ⟨_, seen_cases he, rfl⟩
  | through _ _ hj' ih _ =>
    subst hlimit hd ht
    obtain ⟨e, he, rfl⟩ := ih rfl rfl rfl
    refine absurd hj' (not_reached_of_no_links ?_)
    rintro tree ⟨text, hread, hparse⟩
    have porch : e.read "porch" = .ok "P" := by rcases he with rfl | rfl <;> rfl
    change e.read "porch" = .ok text at hread
    rw [porch] at hread
    cases hread
    cases hparse
    rfl

end Porch

/-- A house that fails after the layout it extends: its old compiled file stays, and the
one file that has changed holds the blocks of the layout. -/
theorem compileFile_writes_porch :
    exec (Porch.compiler.compileFile "house" "house.php" .page) Porch.disk =
        (.error (.unknownStatement ⟨"house", some 2⟩), Porch.after) ∧
      Porch.after.find? "house.php" = Porch.disk.find? "house.php" ∧
      Porch.after.read "porch%%e%%.php" = .ok Porch.blocks.text ∧
      ∃ j result n, Reached Porch.compiler Compiler.nestingLimit Porch.disk "house" j ∧
        (j.run Porch.compiler).1 = .ok result ∧ result.recompiled = true ∧
        j.CompiledTo Porch.compiler ["w", "porch%%e%%.php"] ∧
        Porch.after.get? ["w", "porch%%e%%.php"] =
          some (.file (.text result.output.stored) (Porch.disk.clock n)) := by
  obtain ⟨hfailed, -, hchanged⟩ := compileFile_writes _ _ _ _ _ _ _ Porch.compileFile_house
  have new : Porch.after.get? ["w", "porch%%e%%.php"] ≠
      Porch.disk.get? ["w", "porch%%e%%.php"] := by
    decide +kernel
  refine ⟨Porch.compileFile_house, hfailed _ rfl ?_, rfl, ?_⟩
  · intro j place hj ⟨compiled, hcompiled, hlocate⟩ hplace
    obtain ⟨e, he, rfl⟩ := Porch.reached_cases hj
    have porch : e.locate "porch%%e%%.php" = .ok ["w", "porch%%e%%.php"] := by
      rcases he with rfl | rfl <;> rfl
    have house : Porch.disk.locate "house.php" = .ok ["w", "house.php"] := rfl
    cases hcompiled
    change e.locate "porch%%e%%.php" = .ok place at hlocate
    rw [porch] at hlocate
    rw [house] at hplace
    cases hlocate
    simp at hplace
  · obtain ⟨out, hout, -⟩ | reached := hchanged _ new
    · cases hout
    · exact reached

end Stencil
