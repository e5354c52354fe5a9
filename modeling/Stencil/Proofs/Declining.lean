/-
# Extensions that decline

An extension is asked in many places: for every expression and statement, and for every
function and filter that is named. One that has no answer to any question, or only empty
ones, is passed over in all of them, wherever it stands among the others. So is it in the
templates that are compiled on the way.

Two lists of extensions are compared by what their first answers are. Where these are the
same, emissions agree (`Emit.Similar`), and by induction on how deep templates name one
another so do compilations through the disk.

Key definitions: `Extension.Declines`, `SameAnswers`, `Compiler.insertExtension`.
Key theorems: `SameAnswers.compileWithin`, `Compiler.compileSource_insertExtension`.
-/
import Stencil.Proofs.Transparency

namespace Stencil

/-- The extension has no answer to any question, or an empty one. -/
structure Extension.Declines (e : Extension) : Prop where
  expression : ∀ x, e.expression x = none ∨ e.expression x = some ""
  function : ∀ name arguments raw,
    e.function name arguments raw = none ∨ e.function name arguments raw = some ""
  filter : ∀ name arguments raw,
    e.filter name arguments raw = none ∨ e.filter name arguments raw = some ""
  statement : ∀ n, e.statement n = none ∨ e.statement n = some ""

/-- The first answer to every question is the same. -/
structure SameAnswers (es₁ es₂ : List Extension) : Prop where
  expression : ∀ x, firstHandled es₁ (·.expression x) = firstHandled es₂ (·.expression x)
  function : ∀ name arguments raw,
    firstHandled es₁ (·.function name arguments raw) =
      firstHandled es₂ (·.function name arguments raw)
  filter : ∀ name arguments raw,
    firstHandled es₁ (·.filter name arguments raw) = firstHandled es₂ (·.filter name arguments raw)
  statement : ∀ n, firstHandled es₁ (·.statement n) = firstHandled es₂ (·.statement n)

theorem firstHandled_cons_of_declined {e : Extension} {hook : Extension → Option String}
    (h : hook e = none ∨ hook e = some "") (es : List Extension) :
    firstHandled (e :: es) hook = firstHandled es hook := by
  unfold firstHandled
  rcases h with h | h <;> simp [h]

/-- An extension that declines is passed over, wherever it stands. -/
theorem firstHandled_insertIdx {e : Extension} {hook : Extension → Option String}
    (h : hook e = none ∨ hook e = some "") (es : List Extension) (i : Nat) :
    firstHandled (es.insertIdx i e) hook = firstHandled es hook := by
  induction es generalizing i with
  | nil =>
    cases i with
    | zero => exact firstHandled_cons_of_declined h []
    | succ i => rfl
  | cons first rest ih =>
    cases i with
    | zero => exact firstHandled_cons_of_declined h (first :: rest)
    | succ i =>
      have hrest := ih i
      unfold firstHandled at hrest ⊢
      rw [List.insertIdx_succ_cons, List.findSome?_cons, List.findSome?_cons, hrest]

theorem Extension.Declines.sameAnswers {e : Extension} (h : e.Declines) (es : List Extension)
    (i : Nat) :
    SameAnswers (es.insertIdx i e) es where
  expression x := firstHandled_insertIdx (h.expression x) es i
  function name arguments raw := firstHandled_insertIdx (h.function name arguments raw) es i
  filter name arguments raw := firstHandled_insertIdx (h.filter name arguments raw) es i
  statement n := firstHandled_insertIdx (h.statement n) es i

namespace Emit

/-- Emissions that agree on equal disks are the same. -/
theorem exec_eq_of_agrees {α : Type} {A : String × Mode → Prop} {m₁ m₂ : EmitM α}
    (h : Agrees (Alike Eq A) m₁ m₂) {s : State} (hs : Alike Eq A s s) : exec m₁ s = exec m₂ s := by
  obtain ⟨hr, d, hstate, hdisk, -⟩ := h s s hs
  refine Prod.ext hr ?_
  rw [hstate, ← hdisk]

end Emit

/-! ### Compilations -/

namespace SameAnswers

variable {c : Compiler} {es : List Extension} (H : SameAnswers es c.extensions)
include H

theorem similar (source : String) {nested₁ nested₂ : String → Mode → DiskM Output}
    (hnested : ∀ path mode d, exec (nested₁ path mode) d = exec (nested₂ path mode) d) :
    Emit.Similar Eq (fun _ => True) (.outer { c with extensions := es } source nested₁)
      (.outer c source nested₂) := by
  refine .outer ⟨rfl, H.expression, H.function, H.filter, H.statement, rfl, rfl, rfl, rfl,
    .pure _, ?_⟩
  rintro path mode - d _ rfl
  refine ⟨?_, fun _ _ _ _ _ _ _ => trivial⟩
  have hsame : exec (nested₁ (c.viewPath d path) mode) d =
      exec (nested₂ (c.viewPath d path) mode) d :=
    hnested _ mode d
  exact ⟨congrArg (·.1) hsame, congrArg (·.2) hsame⟩

theorem compileTree {nested₁ nested₂ : String → Mode → DiskM Output}
    (hnested : ∀ path mode d, exec (nested₁ path mode) d = exec (nested₂ path mode) d)
    (text source : String) (mode : Mode) (d : Disk) :
    exec ({ c with extensions := es }.compileTree nested₁ text source mode) d =
      exec (c.compileTree nested₂ text source mode) d := by
  rw [Compiler.exec_compileTree, Compiler.exec_compileTree]
  cases c.parse text source with
  | error e => rfl
  | ok tree =>
    have hemit := Emit.exec_eq_of_agrees
      (Emit.emitTree_agrees (H.similar source hnested) tree mode fun _ _ => trivial)
      (Emit.alike_initial c.options.autoescape (rfl : d = d))
    exact congrArg (fun run => (run.1, run.2.disk)) hemit

theorem compileFileWith {nested₁ nested₂ : String → Mode → DiskM Output}
    (hnested : ∀ path mode d, exec (nested₁ path mode) d = exec (nested₂ path mode) d)
    (template compiled : String) (mode : Mode) (d : Disk) :
    exec ({ c with extensions := es }.compileFileWith nested₁ template compiled mode) d =
      exec (c.compileFileWith nested₂ template compiled mode) d := by
  rw [Compiler.exec_compileFileWith, Compiler.exec_compileFileWith]
  simp only [H.compileTree hnested]

/-- Templates that are compiled on the way give the same too. -/
theorem compileWithin (depth : Nat) : ∀ (template : String) (mode : Mode) (d : Disk),
    exec ({ c with extensions := es }.compileWithin depth template mode) d =
      exec (c.compileWithin depth template mode) d := by
  induction depth with
  | zero => intro template mode d; rfl
  | succ depth ih =>
    intro template mode d
    have hnested : ∀ path mode d,
        exec ({ c with extensions := es }.nestedWithin depth path mode) d =
        exec (c.nestedWithin depth path mode) d := by
      intro path mode d
      rw [Compiler.exec_nestedWithin, Compiler.exec_nestedWithin, ih]
    rw [Compiler.exec_compileWithin, Compiler.exec_compileWithin]
    simp only [H.compileFileWith hnested]
    rfl

theorem nested (path : String) (mode : Mode) (d : Disk) :
    exec ({ c with extensions := es }.nested path mode) d = exec (c.nested path mode) d := by
  unfold Compiler.nested
  rw [exec_bind, exec_bind, exec_get]
  dsimp only
  rw [exec_bind, exec_bind, H.compileWithin]

end SameAnswers

/-- The compiler with one more extension, which is asked after the first `i`. -/
def Compiler.insertExtension (c : Compiler) (i : Nat) (e : Extension) : Compiler :=
  { c with extensions := c.extensions.insertIdx i e }

/-- **Extensions that decline do not show.** Wherever an extension that declines is inserted,
compiling a source gives the same code or blocks or fails for the same reason, and leaves
the same disk. -/
theorem Compiler.compileSource_insertExtension (c : Compiler) (i : Nat) {e : Extension}
    (h : e.Declines) (text source : String) (mode : Mode) (d : Disk) :
    exec ((c.insertExtension i e).compileSource text source mode) d =
      exec (c.compileSource text source mode) d :=
  (h.sameAnswers c.extensions i).compileTree (h.sameAnswers c.extensions i).nested
    text source mode d

namespace Reception

/-- Has empty answers about functions and statements, and none else. -/
def shy : Extension := ⟨fun _ => none, fun _ _ _ => some "", fun _ _ _ => none, fun _ => some ""⟩

/-- Answers for every function. -/
def eager : Extension :=
  { Extension.silent with function := fun name _ _ => some ("ask('" ++ name ++ "')") }

/-- Calls a function in a page of its own. -/
def compiler : Compiler :=
  { Compiler.initial with
    extensions := [eager]
    parse := fun _ _ => .ok [.mk (.echo (some (.call (.var "bell") []))) .unknown] }

theorem shy_declines : shy.Declines where
  expression _ := .inl rfl
  function _ _ _ := .inr rfl
  filter _ _ _ := .inl rfl
  statement _ := .inr rfl

end Reception

/-- An extension with empty answers is asked first, and the next one is heard. -/
theorem Compiler.compileSource_insertExtension_reception :
    Reception.shy.Declines ∧
      exec ((Reception.compiler.insertExtension 0 Reception.shy).compileSource "" "desk" .page)
          .empty =
        exec (Reception.compiler.compileSource "" "desk" .page) .empty ∧
      (exec (Reception.compiler.compileSource "" "desk" .page) .empty).1 =
        .ok (.code "<?= ask('bell') ?>") :=
  ⟨Reception.shy_declines,
    compileSource_insertExtension Reception.compiler 0 Reception.shy_declines "" "desk" .page .empty,
    by rfl⟩

end Stencil
