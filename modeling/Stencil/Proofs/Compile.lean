/-
# Running compilations

What compiling through the disk does, case by case: where the compiled file is,
whether it is used again, and what is read and written when it is not.

Key theorems: `Compiler.exec_compileWithin`, `Compiler.exec_compileFileWith`,
`Compiler.exec_compileTree`.
-/
import Stencil.Artifact.Compile
import Stencil.Proofs.Exec

namespace Stencil

/-- What an output is for. -/
def Output.mode : Output → Mode
  | .code _ => .page
  | .blocks _ => .layout

/-- On the disk `d`, the template at the path is read to this tree. -/
def Holds (c : Compiler) (d : Disk) (template : String) (tree : Template) : Prop :=
  ∃ text, d.read template = .ok text ∧ c.parse text template = .ok tree

namespace Compiler

theorem exec_emit {α : Type} (c : Compiler) (act : EmitM α) (d : Disk) :
    exec (c.emit act) d =
      ((exec act (.initial c.options.autoescape d)).1,
        (exec act (.initial c.options.autoescape d)).2.disk) := rfl

/-- What a template's tree is compiled to, as an emission. -/
def emitTree (env : Emit.Env) (tree : Template) : Mode → EmitM Output
  | .page => .code <$> Emit.page env tree
  | .layout => .blocks <$> Emit.layout env tree

theorem emitTree_mode {env : Emit.Env} {tree : Template} {mode : Mode} {s s' : Emit.State}
    {out : Output} (h : exec (emitTree env tree mode) s = (.ok out, s')) : out.mode = mode := by
  cases mode <;> rw [emitTree, exec_map_eq_ok] at h <;> obtain ⟨_, -, rfl⟩ := h <;> rfl

theorem exec_compileTree (c : Compiler) (nested : String → Mode → DiskM Output)
    (text source : String) (mode : Mode) (d : Disk) :
    exec (c.compileTree nested text source mode) d =
      match c.parse text source with
      | .error e => (.error e, d)
      | .ok tree => exec (c.emit (emitTree (.outer c source nested) tree mode)) d := by
  unfold compileTree
  cases c.parse text source with
  | error e => rfl
  | ok tree =>
    cases mode <;> simp only [emitTree, exec_emit, exec_map, exec_bind]
    · rcases exec (Emit.page (.outer c source nested) tree) (.initial c.options.autoescape d) with ⟨r, s⟩
      cases r <;> rfl
    · rcases exec (Emit.layout (.outer c source nested) tree) (.initial c.options.autoescape d) with ⟨r, s⟩
      cases r <;> rfl

theorem compileTree_ok {c : Compiler} {nested : String → Mode → DiskM Output} {text source : String}
    {mode : Mode} {d d' : Disk} {out : Output}
    (h : exec (c.compileTree nested text source mode) d = (.ok out, d')) :
    ∃ tree s, c.parse text source = .ok tree ∧
      exec (emitTree (.outer c source nested) tree mode) (.initial c.options.autoescape d) =
        (.ok out, s) ∧ s.disk = d' := by
  rw [exec_compileTree] at h
  cases hp : c.parse text source with
  | error e => simp [hp] at h
  | ok tree =>
    simp only [hp, exec_emit, Prod.mk.injEq] at h
    exact ⟨tree, _, rfl, Prod.ext h.1 rfl, h.2⟩

/-- The disk after an output is written to its compiled file, if it can be. -/
def store (out : Output) (compiled : String) (d : Disk) : Except CompileError Output × Disk :=
  match d.save? compiled (.text out.stored) with
  | some d' => (.ok out, d')
  | none => (.error (.cacheWrite compiled), d)

theorem store_eq_ok_iff {out out' : Output} {compiled : String} {d d' : Disk} :
    store out' compiled d = (.ok out, d') ↔
      out' = out ∧ d.save? compiled (.text out'.stored) = some d' := by
  unfold store
  cases d.save? compiled (.text out'.stored) <;> simp

theorem exec_compileFileWith (c : Compiler) (nested : String → Mode → DiskM Output)
    (template compiled : String) (mode : Mode) (d : Disk) :
    exec (c.compileFileWith nested template compiled mode) d =
      if Path.same template compiled then (.error (.samePath template), d)
      else
        match d.read template with
        | .error (.lost .missing) => (.error (.sourceNotFound template), d)
        | .error _ => (.error (.sourceUnreadable template), d)
        | .ok text =>
          match exec (c.compileTree nested text template mode) d with
          | (.ok out, d') => store out compiled d'
          | (.error e, d') => (.error e, d') := by
  unfold compileFileWith store
  by_cases hsame : Path.same template compiled
  · simp [hsame]
  · simp only [hsame, Bool.false_eq_true, ↓reduceIte, exec_bind, exec_get]
    cases d.read template with
    | error why => rcases why with ⟨⟨⟩⟩ | _ <;> rfl
    | ok text =>
      simp only [exec_bind, exec_get]
      rcases exec (c.compileTree nested text template mode) d with ⟨r, d'⟩
      cases r with
      | error e => rfl
      | ok out =>
        dsimp only
        cases d'.save? compiled (.text out.stored) <;> rfl

theorem compileFileWith_ok {c : Compiler} {nested : String → Mode → DiskM Output}
    {template compiled : String} {mode : Mode} {d d' : Disk} {out : Output}
    (h : exec (c.compileFileWith nested template compiled mode) d = (.ok out, d')) :
    Path.same template compiled = false ∧ ∃ text d₁, d.read template = .ok text ∧
      exec (c.compileTree nested text template mode) d = (.ok out, d₁) ∧
      d₁.save? compiled (.text out.stored) = some d' := by
  rw [exec_compileFileWith] at h
  by_cases hsame : Path.same template compiled
  · simp [hsame] at h
  · rw [if_neg hsame] at h
    refine ⟨by simpa using hsame, ?_⟩
    cases hr : d.read template with
    | error why => rcases why with ⟨⟨⟩⟩ | _ <;> simp [hr] at h
    | ok text =>
      rcases ht : exec (c.compileTree nested text template mode) d with ⟨r, d₁⟩
      simp only [hr, ht] at h
      cases r with
      | error e => simp at h
      | ok out' =>
        simp only [store] at h
        split at h
        · rename_i hw
          simp only [Prod.mk.injEq, Except.ok.injEq] at h
          obtain ⟨rfl, rfl⟩ := h
          exact ⟨text, d₁, rfl, ht, hw⟩
        · simp at h

/-- A template that can be read is compiled to a file if it can be emitted and written. -/
theorem compileFileWith_eq_ok_iff {c : Compiler} {nested : String → Mode → DiskM Output}
    {template compiled text : String} {tree : Template} {mode : Mode} {d d' : Disk} {out : Output}
    (hsame : Path.same template compiled = false) (hread : d.read template = .ok text)
    (hparse : c.parse text template = .ok tree) :
    exec (c.compileFileWith nested template compiled mode) d = (.ok out, d') ↔
      ∃ s, exec (emitTree (.outer c template nested) tree mode) (.initial c.options.autoescape d) =
          (.ok out, s) ∧
        s.disk.save? compiled (.text out.stored) = some d' := by
  rw [exec_compileFileWith, if_neg (by simp [hsame]), hread]
  dsimp only
  rw [exec_compileTree, hparse]
  dsimp only
  rw [exec_emit]
  rcases exec (emitTree (.outer c template nested) tree mode) (.initial c.options.autoescape d) with ⟨r, s⟩
  cases r with
  | error e => simp
  | ok out' =>
    dsimp only
    rw [store_eq_ok_iff]
    constructor
    · rintro ⟨rfl, hw⟩
      exact ⟨s, rfl, hw⟩
    · rintro ⟨_, he, hw⟩
      cases he
      exact ⟨rfl, hw⟩

/-- How a compilation compiles the templates it names. -/
def nestedWithin (c : Compiler) (depth : Nat) (path : String) (mode : Mode) : DiskM Output :=
  (·.output) <$> c.compileWithin depth path mode

theorem exec_compileWithin (c : Compiler) (depth : Nat) (template : String) (mode : Mode) (d : Disk) :
    exec (c.compileWithin (depth + 1) template mode) d =
      match c.compiledPath d template mode with
      | .error e => (.error e, d)
      | .ok compiled =>
        if c.mustCompile d template compiled then
          ((exec (c.compileFileWith (c.nestedWithin depth) template compiled mode) d).1.map
              (⟨·, compiled, true⟩),
            (exec (c.compileFileWith (c.nestedWithin depth) template compiled mode) d).2)
        else
          ((load d compiled mode).map (⟨·, compiled, false⟩), d) := by
  rw [compileWithin]
  simp only [exec_bind, exec_get]
  cases c.compiledPath d template mode with
  | error e => rfl
  | ok compiled =>
    simp only [exec_bind, exec_get, exec_pure]
    by_cases hmust : c.mustCompile d template compiled
    · have hnested : (fun path mode => (·.output) <$> c.compileWithin depth path mode) =
          c.nestedWithin depth := rfl
      simp only [hmust, ↓reduceIte, exec_bind, hnested]
      rcases exec (c.compileFileWith (c.nestedWithin depth) template compiled mode) d with ⟨r, d'⟩
      cases r <;> rfl
    · simp only [hmust, Bool.false_eq_true, ↓reduceIte, exec_bind, exec_get]
      cases load d compiled mode <;> rfl

/-- Compiling anew: the file of the result is the compiled file, and says so. -/
theorem compileWithin_eq_ok_iff {c : Compiler} {depth : Nat} {template compiled : String} {mode : Mode}
    {d d' : Disk} {r : Compilation} (hpath : c.compiledPath d template mode = .ok compiled)
    (hmust : c.mustCompile d template compiled = true) :
    exec (c.compileWithin (depth + 1) template mode) d = (.ok r, d') ↔
      r = ⟨r.output, compiled, true⟩ ∧
        exec (c.compileFileWith (c.nestedWithin depth) template compiled mode) d =
          (.ok r.output, d') := by
  rw [exec_compileWithin, hpath]
  dsimp only
  rw [if_pos hmust]
  rcases exec (c.compileFileWith (c.nestedWithin depth) template compiled mode) d with ⟨result, d₁⟩
  cases result with
  | error e => simp [Except.map]
  | ok out =>
    simp only [Except.map, Prod.mk.injEq, Except.ok.injEq]
    constructor
    · rintro ⟨rfl, hd⟩
      exact ⟨rfl, rfl, hd⟩
    · rintro ⟨hr, hout, hd⟩
      rw [hout]
      exact ⟨hr.symm, hd⟩

/-- A compilation gives the path of the compiled file, and says whether that had to be
compiled. -/
theorem compileWithin_ok {c : Compiler} {depth : Nat} {template : String} {mode : Mode} {d : Disk}
    {r : Compilation} (h : (exec (c.compileWithin depth template mode) d).1 = .ok r) :
    c.compiledPath d template mode = .ok r.path ∧ c.mustCompile d template r.path = r.recompiled := by
  cases depth with
  | zero => cases h
  | succ depth =>
    rw [exec_compileWithin] at h
    cases hc : c.compiledPath d template mode with
    | error e => simp [hc] at h
    | ok compiled =>
      simp only [hc] at h
      by_cases hmust : c.mustCompile d template compiled
      · rw [if_pos hmust] at h
        generalize (exec (c.compileFileWith _ _ _ _) d).1 = result at h
        cases result <;> cases h
        exact ⟨rfl, hmust⟩
      · rw [if_neg hmust] at h
        cases hl : load d compiled mode <;> rw [hl] at h <;> cases h
        exact ⟨rfl, by simpa using hmust⟩

theorem exec_nestedWithin (c : Compiler) (depth : Nat) (path : String) (mode : Mode) (d : Disk) :
    exec (c.nestedWithin depth path mode) d =
      ((exec (c.compileWithin depth path mode) d).1.map (·.output),
        (exec (c.compileWithin depth path mode) d).2) := by
  rw [nestedWithin, exec_map]

theorem exec_compile (c : Compiler) (template : String) (mode : Mode) (d : Disk) :
    exec (c.compile template mode) d =
      exec (c.compileWithin (nestingLimit d) template mode) d := by
  rw [compile, exec_bind, exec_get]

end Compiler
end Stencil
