/-
# Templates that are overwritten

A template is not compiled to its own path. What is compared for this are spellings, while a file
is written wherever its path leads. So a template that is compiled to another spelling of its path
is read, compiled and replaced by its own output, and the options can give such a spelling to any
template.

A template can also be replaced on the way, if another one that it names has its compiled file
there. Nothing else changes a template. The first does not happen to one whose compiled file has
its path with something added that has no slash.

Key theorems: `Compiler.compileFile_other_spelling`, `Compiler.compile_anew`,
`Compiler.compile_changed`, `Compiler.template_overwritten`.
-/
import Stencil.Proofs.Overrides
import Stencil.Proofs.Spellings

namespace Stencil
namespace Compiler

variable {c : Compiler} {d d' : Disk} {template compiled : String} {mode : Mode} {place : Place}

/-- Compiling a template makes and removes no directory, and the clock goes on. -/
theorem compileSource_since {e : Disk} {text : String} {r : Except CompileError Output}
    (hread : d.read template = .ok text)
    (h : exec (c.compileSource text template mode) d = (r, e)) :
    d.SameDirs e ∧ d.Later e := by
  change exec (c.compileTree c.nested text template mode) d = (r, e) at h
  cases hparse : c.parse text template with
  | error err =>
    rw [exec_compileTree, hparse] at h
    cases h
    exact ⟨.refl d, .refl d⟩
  | ok tree =>
    have hseen : Seen c nestingLimit d tree
        (exec (c.compileTree c.nested text template mode) d).2 :=
      emission_seen (fun e path mode => c.exec_nested path mode e) hparse
    rw [h] at hseen
    have changed := hseen.changed (fun _ _ => Job.frame c _) ⟨text, hread, hparse⟩
    exact ⟨changed.dirs, changed.later⟩

/-- A template compiled to another spelling of its path is replaced by its output, exactly if it
compiles. -/
theorem compileFile_other_spelling (hfile : d.HasFile compiled place)
    (hsame : Path.same template compiled = false) (mode : Mode) (out : Output) :
    (∃ d' n, exec (c.compileFile template compiled mode) d = (.ok out, d') ∧
        d'.get? place = some (.file (.text out.stored) (d.clock n))) ↔
      ∃ text e, d.read template = .ok text ∧
        exec (c.compileSource text template mode) d = (.ok out, e) := by
  constructor
  · rintro ⟨d', n, hrun, -⟩
    obtain ⟨-, text, e, hread, htree, -⟩ := compileFileWith_ok hrun
    exact ⟨text, e, hread, htree⟩
  · rintro ⟨text, e, hread, htree⟩
    obtain ⟨hdirs, hlater⟩ := compileSource_since hread htree
    have hlocate := (hdirs.locate_ok_iff compiled).2 hfile.1
    have hnotDir : e.get? place ≠ some .dir := fun hdir => hfile.not_dir ((hdirs place).1 hdir)
    have hsave := Disk.save?_eq_put hlocate hnotDir (.text out.stored)
    obtain ⟨n, hnow⟩ := hlater.now_eq
    refine ⟨(e.put place (.file (.text out.stored) e.now)).tick, n, ?_, ?_⟩
    · rw [compileFile, exec_compileFileWith, if_neg (by simp [hsame]), hread]
      change exec (c.compileTree c.nested text template mode) d = (.ok out, e) at htree
      dsimp only
      rw [htree]
      dsimp only
      rw [store, hsave]
    · rw [← hnow]
      exact (Disk.written_of_put hnotDir (.text out.stored) e.now).there

/-- A compiled file that is the template itself is always stale. -/
theorem mustCompile_own_file (hfile : d.HasFile template place)
    (hcompiled : d.locate compiled = .ok place) :
    c.mustCompile d template compiled = (c.options.always || c.options.stat) := by
  obtain ⟨hplace, content, time, hget⟩ := hfile
  have hchanged : ∀ {path : String}, d.locate path = .ok place → d.changed? path = some time := by
    intro path hpath
    simp [Disk.changed?, hpath, hget]
  rw [mustCompile, hchanged hcompiled]
  dsimp only
  rw [isStale, hchanged hplace]
  simp

/-- A template that is compiled to the path it has is left alone, with everything else. -/
theorem compile_same_path (hpath : c.compiledPath d template mode = .ok compiled)
    (hsame : Path.same template compiled = true) :
    (exec (c.compile template mode) d).2 = d := by
  rw [exec_compile]
  cases nestingLimit d with
  | zero => rfl
  | succ depth =>
    rw [exec_compileWithin, hpath]
    dsimp only
    split
    · rw [exec_compileFileWith, if_pos hsame]
    · rfl

/-- A template that is compiled anew has a compiled file with another path, and that holds the
output. -/
theorem compile_anew {out : Output}
    (h : exec (c.compile template mode) d = (.ok ⟨out, compiled, true⟩, d')) :
    Path.same template compiled = false ∧ ∀ place, d.locate compiled = .ok place →
      ∃ n, d'.get? place = some (.file (.text out.stored) (d.clock n)) := by
  rw [exec_compile] at h
  cases hdepth : nestingLimit d with
  | zero =>
    rw [hdepth] at h
    cases h
  | succ depth =>
    rw [hdepth] at h
    obtain ⟨hpath, hmust⟩ := compileWithin_ok (congrArg Prod.fst h)
    have hfile := ((compileWithin_eq_ok_iff hpath hmust).1 h).2
    refine ⟨(compileFileWith_ok hfile).1, fun place hplace => ?_⟩
    obtain ⟨e, changed, ⟨⟨err, herr⟩, -⟩ | ⟨out', place', hout, hl, W, -⟩⟩ :=
      compileFileWith_changed (c := c) (fun _ _ _ => rfl)
        (fun _ _ => Job.frame c _) template compiled mode d
    · rw [hfile] at herr
      cases herr
    · rw [hfile] at hout W
      cases hout
      rw [(changed.dirs.locate_ok_iff compiled).2 hplace] at hl
      cases hl
      obtain ⟨n, hnow⟩ := changed.later.now_eq
      exact ⟨n, hnow ▸ W.there⟩

/-- What a compilation changes is the compiled file of its template, or that of another one that it
reaches. -/
theorem compile_changed {r : Except CompileError Compilation}
    (h : exec (c.compile template mode) d = (r, d')) (hchanged : d'.get? place ≠ d.get? place) :
    (∃ out compiled, r = .ok ⟨out, compiled, true⟩ ∧ c.compiledPath d template mode = .ok compiled ∧
        d.locate compiled = .ok place) ∨
      ∃ j item, Reached c (fun _ => nestingLimit d - 1) d template j ∧ j.Wrote c place item ∧
        d'.get? place = some item := by
  have hrun : (Job.ofCall d (template, mode)).run c = (r, d') := by
    rw [← h, exec_compile]
    rfl
  have frame := (Job.frame c (.ofCall d (template, mode))).wrote place
  rw [hrun] at frame
  obtain ⟨item, hitem,
    ⟨result, n, hresult, hanew, ⟨compiled, hpath, hplace⟩, -⟩ | ⟨-, j, hj, hwrote⟩⟩ :=
    frame hchanged
  · have hname := (compileWithin_ok hresult).1
    rw [hrun] at hresult
    obtain ⟨out, path, anew⟩ := result
    cases hpath.symm.trans hname
    cases hanew
    exact .inl ⟨out, path, hresult, hpath, hplace⟩
  · exact .inr ⟨j, item, hj, hwrote, hitem⟩

/-- With no root and no stem, the compiled file of a template has its path with something added. -/
theorem compiledPath_eq_append (hroot : c.options.path = none ∨ c.options.path = some (.root ""))
    (hstem : c.options.stem = "") (h : c.compiledPath d template mode = .ok compiled) :
    compiled = template ++ (suffix c.options.separator mode ++ c.options.extension) := by
  have hpath : c.compiledPath d template mode = .ok (c.rootedPath d "" template mode) := by
    unfold compiledPath
    rcases hroot with hroot | hroot <;> rw [hroot]
  rw [hpath] at h
  cases h
  unfold rootedPath
  cases mode <;> simp [suffix, hstem, String.append_assoc]

end Compiler

/-! ### A leaf written over -/

namespace Palimpsest

/-- A template with nothing in it. -/
def disk : Disk := { Disk.empty with items := [(["w", "leaf"], .file (.text "[]") 1000)] }

/-- The disk after the template was replaced by its output. -/
def after : Disk := (disk.put ["w", "leaf"] (.file (.text "") disk.now)).tick

/-- Options that put a dot before the path of a template and add nothing to it. -/
def dotted : Compiler :=
  { Compiler.initial with options := { Options.initial with stem := "./", extension := "" } }

theorem hasFile : disk.HasFile "leaf" ["w", "leaf"] := ⟨rfl, _, _, rfl⟩

theorem not_same : Path.same "leaf" "./leaf" = false := by decide +kernel

theorem not_same_from_top : Path.same "leaf" "/w/leaf" = false := by decide +kernel

theorem compileFileWith_leaf (nested : String → Mode → DiskM Output) {c : Compiler}
    (hc : c = .initial ∨ c = dotted) :
    exec (c.compileFileWith nested "leaf" "./leaf" .page) disk = (.ok (.code ""), after) := by
  have hread : disk.read "leaf" = .ok "[]" := rfl
  have htree : exec (c.compileTree nested "[]" "leaf" .page) disk = (.ok (.code ""), disk) := by
    rcases hc with rfl | rfl <;> rfl
  have hsave : disk.save? "./leaf" (.text "") = some after := rfl
  rw [Compiler.exec_compileFileWith, if_neg (by simp [not_same]), hread]
  dsimp only
  rw [htree]
  dsimp only
  rw [Compiler.store, Output.stored, hsave]

end Palimpsest

end Stencil
