/-
# Compiled files of different templates

Below a root all compiled files are in one directory, if the separator and the extension
have no slash. There a file has one name, so a file that changes is the compiled file of a
template that was compiled, under that very name. Which templates share a name is
said by the names of their paths.

Key definitions: `Disk.Grounded`, `Compiler.compileAll`, `Ran`, `Job.Fills`.
Key theorems: `Disk.locate_append_inj`, `exists_fills_of_compileAll`, `Compiler.compiled_apart`.
-/
import Stencil.Proofs.FileNames
import Stencil.Proofs.Writes

namespace Stencil

/-! ### Files of one directory -/

namespace Path

theorem split_of_not_mem :
    ∀ {n part : List Char}, '/' ∉ n → split part n = [String.ofList (part.reverse ++ n)]
  | [], part, _ => by simp [split]
  | c :: n, part, h => by
    rw [split, if_neg (List.ne_of_not_mem_cons h).symm,
      split_of_not_mem (List.not_mem_of_not_mem_cons h)]
    simp

/-- A text without slashes goes to the last step. -/
theorem split_append : ∀ cs part : List Char, ∃ dirs last, ∀ n : List Char, '/' ∉ n →
    split part (cs ++ n) = dirs ++ [String.ofList (last ++ n)]
  | [], part => ⟨[], part.reverse, fun _ hn => split_of_not_mem hn⟩
  | c :: cs, part => by
    by_cases hc : c = '/'
    · obtain ⟨dirs, last, ih⟩ := split_append cs []
      refine ⟨String.ofList part.reverse :: dirs, last, fun n hn => ?_⟩
      rw [List.cons_append, split, if_pos hc, ih n hn, List.cons_append]
    · obtain ⟨dirs, last, ih⟩ := split_append cs (c :: part)
      refine ⟨dirs, last, fun n hn => ?_⟩
      rw [List.cons_append, split, if_neg hc, ih n hn]

end Path

namespace Disk

variable {d : Disk}

/-- A look-up goes on from a directory only. -/
theorem walk_cons_eq_ok {name : String} {rest : List String} {p q : Place} :
    d.walk p (name :: rest) = .ok q ↔
      d.get? p = some .dir ∧ ∃ next, step p name = .ok next ∧ d.walk next rest = .ok q := by
  rw [walk]
  rcases d.get? p with _ | _ | _
  · simp
  · simp
  · cases step p name <;> simp

/-- Where a step can lead. -/
theorem step_cases {p q : Place} {name : String} (h : step p name = .ok q) :
    q = p ∨ q = p.dropLast ∨ q = p ++ [name] := by
  unfold step at h
  split at h
  · cases h
    exact .inl rfl
  split at h
  · cases h
    exact .inr (.inl rfl)
  split at h
  · cases h
  · cases h
    exact .inr (.inr rfl)

/-- The last step of a path is taken from a directory. -/
theorem walk_concat {name : String} {q : Place} {steps : List String} {p : Place}
    (h : d.walk p (steps ++ [name]) = .ok q) :
    ∃ dir, d.walk p steps = .ok dir ∧ d.get? dir = some .dir ∧ step dir name = .ok q := by
  induction steps generalizing p with
  | nil =>
    obtain ⟨hdir, next, hstep, hend⟩ := walk_cons_eq_ok.1 h
    cases hend
    exact ⟨p, rfl, hdir, hstep⟩
  | cons s steps ih =>
    obtain ⟨hdir, next, hstep, hrest⟩ := walk_cons_eq_ok.1 h
    obtain ⟨dir, hwalk, hlast⟩ := ih hrest
    exact ⟨dir, walk_cons_eq_ok.2 ⟨hdir, next, hstep, hwalk⟩, hlast⟩

/-- All places above a place are directories. -/
def Grounded (d : Disk) (p : Place) : Prop := ∀ q, q <+: p.dropLast → d.get? q = some .dir

theorem grounded_start (path : String) : d.Grounded (start path) := by
  intro q hq
  have hhome : q <+: home := by
    unfold start at hq
    split at hq
    · exact hq.trans List.nil_prefix
    · exact hq.trans (List.dropLast_prefix home)
  unfold get?
  rw [if_pos (List.isPrefixOf_iff_prefix.2 hhome)]

theorem Grounded.of_dir {p : Place} (hp : d.Grounded p) (hdir : d.get? p = some .dir) {q : Place}
    (hq : q <+: p) :
    d.get? q = some .dir := by
  rcases List.eq_nil_or_concat p with rfl | ⟨init, last, rfl⟩
  · rwa [List.prefix_nil.1 hq]
  · rw [List.concat_eq_append] at hq
    rcases List.prefix_concat_iff.1 hq with rfl | hq
    · rwa [List.concat_eq_append] at hdir
    · exact hp q (by simpa using hq)

/-- A look-up stays below directories. -/
theorem Grounded.walk {q : Place} {steps : List String} {p : Place} (hp : d.Grounded p)
    (h : d.walk p steps = .ok q) : d.Grounded q := by
  induction steps generalizing p with
  | nil =>
    cases h
    exact hp
  | cons s steps ih =>
    obtain ⟨hdir, next, hstep, hrest⟩ := walk_cons_eq_ok.1 h
    refine ih (fun r hr => hp.of_dir hdir ?_) hrest
    rcases step_cases hstep with rfl | rfl | rfl
    · exact hr.trans (List.dropLast_prefix _)
    · exact (hr.trans (List.dropLast_prefix _)).trans (List.dropLast_prefix _)
    · rwa [List.dropLast_concat] at hr

/-- A step that leads to no directory leads to a place of its name. -/
theorem Grounded.step_eq {p q : Place} {name : String} (hp : d.Grounded p)
    (hdir : d.get? p = some .dir)
    (h : step p name = .ok q) (hq : d.get? q ≠ some .dir) : q = p ++ [name] := by
  rcases step_cases h with rfl | rfl | rfl
  · exact absurd hdir hq
  · exact absurd (hp _ List.prefix_rfl) hq
  · rfl

theorem start_append {base : String} (hbase : base ≠ "") (n : String) :
    start (base ++ n) = start base := by
  have hhead : (base ++ n).toList.head? = base.toList.head? := by
    cases hchars : base.toList with
    | nil => exact absurd (String.toList_eq_nil_iff.1 hchars) hbase
    | cons c cs => simp [hchars]
  unfold start Path.isAbsolute
  rw [hhead]

theorem walk_of_locate {path : String} {q : Place} (h : d.locate path = .ok q) :
    d.walk (start path) (Path.steps path) = .ok q := by
  unfold locate at h
  split at h
  · cases h
  split at h
  · cases h
  · exact h

/-- Two names without slashes after one text lead to one file only if they are the same. -/
theorem locate_append_inj {base n₁ n₂ : String} (hbase : base ≠ "") (h₁ : '/' ∉ n₁.toList)
    (h₂ : '/' ∉ n₂.toList) {q : Place} (hl₁ : d.locate (base ++ n₁) = .ok q)
    (hl₂ : d.locate (base ++ n₂) = .ok q) (hq : d.get? q ≠ some .dir) : n₁ = n₂ := by
  obtain ⟨dirs, last, hsteps⟩ := Path.split_append base.toList []
  have hwalk₁ := walk_of_locate hl₁
  have hwalk₂ := walk_of_locate hl₂
  rw [start_append hbase, Path.steps, String.toList_append, hsteps _ h₁] at hwalk₁
  rw [start_append hbase, Path.steps, String.toList_append, hsteps _ h₂] at hwalk₂
  obtain ⟨dir, hdirs, hdir, hstep₁⟩ := walk_concat hwalk₁
  obtain ⟨dir', hdirs', -, hstep₂⟩ := walk_concat hwalk₂
  cases hdirs.symm.trans hdirs'
  have hground : d.Grounded dir := (grounded_start base).walk hdirs
  have hlast := (hground.step_eq hdir hstep₁ hq).symm.trans (hground.step_eq hdir hstep₂ hq)
  simpa [String.ofList_inj] using hlast

end Disk

/-! ### Sessions -/

/-- A template that is compiled as asked for, and not for another one. -/
def Job.ofCall (d : Disk) (call : String × Mode) : Job :=
  ⟨Compiler.nestingLimit d, d, call.1, call.2⟩

/-- The disk after templates are compiled one after the other. -/
def Compiler.compileAll (c : Compiler) (d : Disk) (calls : List (String × Mode)) : Disk :=
  calls.foldl (fun e call => (exec (c.compile call.1 call.2) e).2) d

/-- The jobs of compiling templates one after the other. -/
inductive Ran (c : Compiler) : Disk → List (String × Mode) → Job → Prop
  | own (d : Disk) (call : String × Mode) (calls : List (String × Mode)) :
    Ran c d (call :: calls) (.ofCall d call)
  | reached {d : Disk} {call : String × Mode} {j : Job} (calls : List (String × Mode)) :
    (Job.ofCall d call).Anew c → Reached c (fun _ => (Job.ofCall d call).depth - 1) d call.1 j →
    Ran c d (call :: calls) j
  | later {d : Disk} {call : String × Mode} {calls : List (String × Mode)} {j : Job} :
    Ran c ((Job.ofCall d call).run c).2 calls j → Ran c d (call :: calls) j

/-- The job compiles a template that exists, and the file of the name is to hold the output, saved
at a time of the job's clock. -/
structure Job.Fills (c : Compiler) (j : Job) (compiled : String) (item : Item) : Prop where
  exist : ∃ p, j.disk.canonical? j.template = some p
  name : c.compiledPath j.disk j.template j.mode = .ok compiled
  output : ∃ result n, (j.run c).1 = .ok result ∧ result.recompiled = true ∧
    item = .file (.text result.output.stored) (j.disk.clock n)

/-- A template that is compiled exists. -/
theorem Job.Wrote.canonical {c : Compiler} {j : Job} {place : Place} {item : Item}
    (h : j.Wrote c place item) :
    ∃ p, j.disk.canonical? j.template = some p := by
  obtain ⟨result, n, hresult, hanew, -, -⟩ := h
  obtain ⟨depth, d, template, mode⟩ := j
  cases depth with
  | zero => cases hresult
  | succ depth =>
    obtain ⟨hpath, hmust⟩ := Compiler.compileWithin_ok hresult
    have hfile :=
      ((Compiler.compileWithin_eq_ok_iff hpath (hmust.trans hanew)).1 (Prod.ext hresult rfl)).2
    obtain ⟨-, text, -, hread, -⟩ := Compiler.compileFileWith_ok hfile
    obtain ⟨place, time, hl, hget⟩ := Disk.find?_of_read hread
    refine ⟨Disk.spelled place, ?_⟩
    simp [Disk.canonical?, hl, hget]

theorem Job.Wrote.ne_dir {c : Compiler} {j : Job} {place : Place} {item : Item}
    (h : j.Wrote c place item) :
    item ≠ .dir := by
  obtain ⟨_, _, -, -, -, rfl⟩ := h
  simp

section

variable {c : Compiler} {root : String} (hpath : c.options.path = some (.root root))
  (hroot : root ≠ "") (hsep : '/' ∉ c.options.separator.toList)
  (hext : '/' ∉ c.options.extension.toList)
include hpath hroot hsep hext

/-- Below a root, compiled files are in one directory. -/
theorem Compiler.compiledPath_name {d : Disk} {template compiled : String} {mode : Mode}
    (h : c.compiledPath d template mode = .ok compiled) :
    ∃ name : String, '/' ∉ name.toList ∧ compiled = root ++ c.options.stem ++ name := by
  rw [compiledPath_eq hpath hroot, Except.ok.injEq] at h
  refine ⟨_, ?_, h.symm⟩
  have hflat : '/' ∉ (flatten d c.options.separator template).toList := by
    unfold flatten Text.lower replaceMarks
    rw [String.toList_ofList, String.toList_ofList]
    intro hslash
    obtain ⟨x, -, hx⟩ := List.mem_flatMap.1 (Text.slash_of_mem_lowerFrom hslash)
    split at hx
    · exact hsep hx
    · rename_i hmark
      exact hmark (.inl (List.mem_singleton.1 hx).symm)
  cases mode <;> simp [suffix, hflat, hsep, hext]

/-- A job that writes to the file of a name fills it. -/
theorem Job.Wrote.fills {d d₀ : Disk} {template compiled : String} {mode : Mode}
    (hname : c.compiledPath d₀ template mode = .ok compiled) {j : Job} (hdirs : d.SameDirs j.disk)
    {place : Place}
    {item : Item} (hwrote : j.Wrote c place item) (hplace : d.locate compiled = .ok place)
    (hfile : d.get? place ≠ some .dir) : j.Fills c compiled item := by
  have hexist := hwrote.canonical
  obtain ⟨result, k, hresult, hanew, ⟨compiled', hname', hplace'⟩, hitem⟩ := hwrote
  obtain ⟨n, hn, rfl⟩ := Compiler.compiledPath_name hpath hroot hsep hext hname
  obtain ⟨n', hn', rfl⟩ := Compiler.compiledPath_name hpath hroot hsep hext hname'
  rw [hdirs.locate_ok_iff] at hplace'
  have hbase : root ++ c.options.stem ≠ "" := by simp [hroot]
  cases Disk.locate_append_inj hbase hn hn' hplace hplace' hfile
  exact ⟨hexist, hname', result, k, hresult, hanew, hitem⟩

/-- One template compiled: if the file of a name changes, a job has filled it. -/
theorem exists_fills_of_compile {d d₀ : Disk} {template compiled : String} {mode : Mode}
    (hname : c.compiledPath d₀ template mode = .ok compiled) (call : String × Mode)
    (calls : List (String × Mode))
    (hchange : ((Job.ofCall d call).run c).2.find? compiled ≠ d.find? compiled) :
    ∃ j item, Ran c d (call :: calls) j ∧ j.Fills c compiled item ∧
      ((Job.ofCall d call).run c).2.find? compiled = some item := by
  have frame := Job.frame c (.ofCall d call)
  obtain ⟨place, hplace, hitem⟩ : ∃ place, d.locate compiled = .ok place ∧
      ((Job.ofCall d call).run c).2.get? place ≠ d.get? place := by
    by_contra hnone
    push Not at hnone
    exact hchange (frame.dirs.find?_eq hnone)
  obtain ⟨item, hthere, hjob⟩ := frame.wrote place hitem
  have hfind : ((Job.ofCall d call).run c).2.find? compiled = some item := by
    rw [Disk.find?, (frame.dirs.locate_ok_iff compiled).2 hplace, ← hthere]
  have hfile : d.get? place ≠ some .dir := by
    intro hdir
    have hkept := (frame.dirs place).2 hdir
    rw [hthere, Option.some.injEq] at hkept
    rcases hjob with hwrote | ⟨-, j, -, hwrote⟩ <;> exact hwrote.ne_dir hkept
  rcases hjob with hwrote | ⟨hanew, j, hj, hwrote⟩
  · have hfills := hwrote.fills hpath hroot hsep hext hname (.refl d) hplace hfile
    exact ⟨_, item, .own d call calls, hfills, hfind⟩
  · have hfills := hwrote.fills hpath hroot hsep hext hname hj.since.1 hplace hfile
    exact ⟨j, item, .reached calls hanew hj, hfills, hfind⟩

/-- Templates compiled one after the other: if the file of a name changes, it is as a job
has filled it. -/
theorem exists_fills_of_compileAll {d₀ : Disk} {template compiled : String} {mode : Mode}
    (hname : c.compiledPath d₀ template mode = .ok compiled)
    (calls : List (String × Mode)) (d : Disk)
    (hchange : (c.compileAll d calls).find? compiled ≠ d.find? compiled) :
    ∃ j item, Ran c d calls j ∧ j.Fills c compiled item ∧
      (c.compileAll d calls).find? compiled = some item := by
  induction calls generalizing d with
  | nil => exact absurd rfl hchange
  | cons call calls ih =>
    have hrun : (exec (c.compile call.1 call.2) d).2 = ((Job.ofCall d call).run c).2 := by
      rw [Compiler.exec_compile]
      rfl
    have hstep : c.compileAll d (call :: calls) =
        c.compileAll ((Job.ofCall d call).run c).2 calls := by
      rw [Compiler.compileAll, List.foldl_cons, hrun, Compiler.compileAll]
    -- The last call that changes the file says what it holds.
    by_cases hlater : (c.compileAll ((Job.ofCall d call).run c).2 calls).find? compiled =
        ((Job.ofCall d call).run c).2.find? compiled
    · rw [hstep, hlater] at hchange ⊢
      exact exists_fills_of_compile hpath hroot hsep hext hname call calls hchange
    · obtain ⟨j, item, hj, hfills, hfind⟩ := ih _ hlater
      rw [hstep]
      exact ⟨j, item, .later hj, hfills, hfind⟩

end

namespace Compiler

/-- What is answered without compiling is what the compiled file holds. -/
theorem load_of_compile {c : Compiler} {d d' : Disk} {template : String} {mode : Mode}
    {result : Compilation}
    (h : exec (c.compile template mode) d = (.ok result, d')) (hold : result.recompiled = false) :
    c.compiledPath d template mode = .ok result.path ∧
      load d result.path mode = .ok result.output := by
  rw [exec_compile] at h
  obtain ⟨hname, hmust⟩ := compileWithin_ok (congrArg Prod.fst h)
  have hlimit : nestingLimit d = 2 * d.items.length + 63 + 1 := rfl
  refine ⟨hname, ?_⟩
  rw [hlimit, exec_compileWithin, hname] at h
  dsimp only at h
  rw [hmust, hold, if_neg (by simp), Prod.mk.injEq] at h
  cases hload : load d result.path mode with
  | error e => simp [hload, Except.map] at h
  | ok output =>
    simp only [hload, Except.map, Except.ok.injEq] at h
    rw [← h.1]

end Compiler

namespace Shelf

/-- A compiler that puts compiled files into a directory, and takes a source as text. -/
def compiler : Compiler :=
  { Compiler.initial with
    options := { Compiler.initial.options with path := some (.root "c/") }
    parse := fun text _ => .ok [.mk (.text text) .unknown] }

/-- Three templates, two of which differ in case only. -/
def disk : Disk :=
  { Disk.empty with
    items := [(["w", "c"], .dir), (["w", "a"], .file (.text "one") 1000),
      (["w", "A"], .file (.text "two") 1000), (["w", "b"], .file (.text "three") 1000)] }

/-- The disk with a compiled file for the first. -/
def after : Disk := (disk.put ["w", "c", "%%w%%a.php"] (.file (.text "one") disk.now)).tick

theorem compiledPath_shared {d : Disk} {template path : String}
    (hpath : d.canonical? template = some path)
    (hlower : Text.lower (Compiler.replaceMarks "%%" path) = "%%w%%a") :
    compiler.compiledPath d template .page = .ok "c/%%w%%a.php" := by
  have hsep : compiler.options.separator = "%%" := rfl
  rw [Compiler.compiledPath_eq rfl (by decide), Compiler.flatten, hpath, hsep,
    Option.getD_some, hlower]
  rfl

theorem compile_small : exec (compiler.compile "a" .page) disk =
    (.ok ⟨.code "one", "c/%%w%%a.php", true⟩, after) := by
  have hlimit : Compiler.nestingLimit disk = 71 + 1 := rfl
  rw [Compiler.exec_compile, hlimit, Compiler.exec_compileWithin,
    compiledPath_shared rfl (by decide +kernel)]
  rfl

theorem compile_small_again : exec (compiler.compile "a" .page) after =
    (.ok ⟨.code "one", "c/%%w%%a.php", false⟩, after) := by
  have hlimit : Compiler.nestingLimit after = 73 + 1 := rfl
  rw [Compiler.exec_compile, hlimit, Compiler.exec_compileWithin,
    compiledPath_shared rfl (by decide +kernel)]
  rfl

end Shelf

end Stencil
