/-
# Registrations that are not used

The same name may be registered as a function, a filter and a service of the view, and what
it stands for depends on where it is used. A registration counts only where the name is
looked up as what was registered: two compilers whose registries answer the same about
every name that a template uses (`Compiler.AgreeOn`) compile it alike. Their emissions go
through the same states, so the relation of emissions is equality, as long as no block is
overridden and nothing is extended.

Key definitions: `Compiler.AgreeOn`, `Compiler.register`, `Emit.Twin`.
Key theorems: `Compiler.AgreeOn.compileSource`, `Compiler.compileString_unused`.
-/
import Stencil.Proofs.Agreement
import Stencil.Proofs.Compile
import Stencil.Proofs.Lockstep
import Stencil.Proofs.Pinned

namespace Stencil

/-- The compilers differ in registrations only, and in none that is about a name of `U`. -/
structure Compiler.AgreeOn (U : Use → Prop) (c₁ c₂ : Compiler) : Prop where
  options : c₁.options = c₂.options
  parse : c₁.parse = c₂.parse
  extensions : c₁.extensions = c₂.extensions
  makeStem : c₁.makeStem = c₂.makeStem
  functions : ∀ name, U (.function name) → c₁.functions.lookup name = c₂.functions.lookup name
  filters : ∀ name, U (.filter name) → c₁.filters.lookup name = c₂.filters.lookup name
  services : ∀ name, U (.variable name) → c₁.services.contains name = c₂.services.contains name

namespace Emit

/-- The states are one state, in which no block is overridden and nothing is extended. -/
def Twin (s t : State) : Prop := s = t ∧ Calm s

theorem agrees_twin {α : Type} {m : EmitM α} (h : ∀ s, Calm s → Calm (exec m s).2) :
    Agrees Twin m m := by
  rintro s _ ⟨rfl, hs⟩
  exact ⟨rfl, rfl, h s hs⟩

theorem twin_get_bind {α : Type} {f₁ f₂ : State → EmitM α} (h : ∀ s, Agrees Twin (f₁ s) (f₂ s)) :
    Agrees Twin (get >>= f₁) (get >>= f₂) := by
  refine .get_bind ?_
  rintro s _ ⟨rfl, -⟩
  exact h s

theorem within_twin {α : Type} {enter : State → State} {leave : State → State → State}
    {m₁ m₂ : EmitM α}
    (henter : ∀ s, Calm s → Calm (enter s)) (hleave : ∀ s t, Calm t → Calm (leave s t))
    (h : Agrees Twin m₁ m₂) : Agrees Twin (within enter leave m₁) (within enter leave m₂) := by
  rintro s _ ⟨rfl, hs⟩
  obtain ⟨hr, hstate, hcalm⟩ := h _ _ ⟨rfl, henter s hs⟩
  exact ⟨hr, congrArg (leave s) hstate, hleave s _ hcalm⟩

theorem noteBranch_twin (depth : Nat) (branch : Branch) (branched : Bool) :
    Agrees Twin (noteBranch depth branch branched) (noteBranch depth branch branched) := by
  cases branched with
  | true => exact agrees_twin fun _ hs => ⟨hs.currentBlock, hs.extended⟩
  | false => exact .pure _

theorem forElse_twin : Agrees Twin forElse forElse := by
  refine twin_get_bind fun s => ?_
  split <;> exact .pure _

theorem segment_twin (code : String) : Agrees Twin (segment code) (segment code) := by
  refine agrees_twin fun s hs => ?_
  rw [exec_segment]
  exact ⟨hs.currentBlock, hs.extended⟩

/-- The statement names no template, and its expressions use names of `U`. -/
def Within (U : Use → Prop) (x : Stmt) : Prop := x.link? = none ∧ ∀ e ∈ x.exprs, ∀ u ∈ e.uses, U u

section
variable {U : Use → Prop} {c₁ c₂ : Compiler} (H : c₁.AgreeOn U c₂) (source : String)
  (nested₁ nested₂ : String → Mode → DiskM Output)
include H

theorem handled_eq (hook : Extension → Option String) : c₁.handled hook = c₂.handled hook := by
  unfold Compiler.handled
  rw [H.extensions]

theorem loopStem_twin :
    Agrees Twin (loopStem (.outer c₁ source nested₁)) (loopStem (.outer c₂ source nested₂)) := by
  have hstem : c₁.stemFor source = c₂.stemFor source := by
    unfold Compiler.stemFor
    rw [H.makeStem]
  refine twin_get_bind fun s => ?_
  dsimp only [Env.outer]
  rw [hstem]
  split
  · exact .pure _
  · split
    · exact Agrees.bind (agrees_twin fun _ hs => ⟨hs.currentBlock, hs.extended⟩) fun _ => .pure _
    · exact .throw _

theorem identifier_twin (name : String) (hname : U (.variable name)) :
    Agrees Twin (identifier (.outer c₁ source nested₁) name)
      (identifier (.outer c₂ source nested₂) name) := by
  have hservices : (Env.outer c₁ source nested₁).compiler.services.contains name =
      (Env.outer c₂ source nested₂).compiler.services.contains name := H.services name hname
  refine twin_get_bind fun s => ?_
  dsimp only
  rw [hservices]
  split
  · refine Agrees.bind (agrees_twin fun _ hs => ⟨hs.currentBlock, hs.extended⟩) fun _ => ?_
    exact (loopStem_twin H source nested₁ nested₂).bind fun _ => .pure _
  · split <;> exact .pure _

/-- Emissions go through the same states, where names of `U` are used and no template is named. -/
theorem twin_lockstep : Lockstep U (Within U) (.outer c₁ source nested₁) (.outer c₂ source nested₂)
    fun _ => Agrees Twin where
  pure := .pure
  throw := .throw
  bind := .bind
  inExpr := within_twin (fun _ hs => ⟨hs.currentBlock, hs.extended⟩) fun _ _ ht =>
    ⟨ht.currentBlock, ht.extended⟩
  fail _ := agrees_twin fun _ hs => hs
  super := by
    rintro s _ ⟨rfl, hs⟩
    unfold AgreesAt
    dsimp only [Env.outer]
    rw [exec_superCode_none _ hs.currentBlock, exec_superCode_none _ hs.currentBlock]
    exact ⟨rfl, rfl, hs⟩
  expression _ := handled_eq H _
  function _ _ _ := handled_eq H _
  filter _ _ _ := handled_eq H _
  identifier := identifier_twin H source nested₁ nested₂
  functions := H.functions
  filters := H.filters
  uses h := h.2
  statement _ := handled_eq H _
  look h := twin_get_bind fun s => h s s ⟨rfl, rfl, rfl, rfl⟩
  loopStem := loopStem_twin H source nested₁ nested₂
  clearLoop _ := agrees_twin fun _ hs => ⟨hs.currentBlock, hs.extended⟩
  noteBranch := noteBranch_twin
  takeRecorded _ := agrees_twin fun _ hs => ⟨hs.currentBlock, hs.extended⟩
  forElse := forElse_twin
  defineMacro name := by
    refine twin_get_bind fun s => ?_
    split
    · exact agrees_twin fun _ hs => hs
    · exact agrees_twin fun _ hs => ⟨hs.currentBlock, hs.extended⟩
  segment := segment_twin
  register _ _ _ := agrees_twin fun _ hs => ⟨hs.currentBlock, hs.extended⟩
  extendView path h := by
    unfold extendView
    split
    · exact absurd h.1 nofun
    · exact agrees_twin fun _ hs => hs
  included path h := absurd h.1 nofun
  inLoop := within_twin (fun _ hs => ⟨hs.currentBlock, hs.extended⟩) fun _ _ ht =>
    ⟨ht.currentBlock, ht.extended⟩
  inList _ := within_twin (fun _ hs => ⟨hs.currentBlock, hs.extended⟩) fun _ _ ht =>
    ⟨ht.currentBlock, ht.extended⟩
  inStmt _ := within_twin (fun _ hs => ⟨hs.currentBlock, hs.extended⟩) fun _ _ ht =>
    ⟨ht.currentBlock, ht.extended⟩
  inAutoescape _ :=
    within_twin (fun _ hs => ⟨hs.currentBlock, hs.extended⟩) fun _ _ ht =>
      ⟨ht.currentBlock, ht.extended⟩

theorem emitTree_twin {tree : Template} (htree : ∀ x ∈ Node.statements tree, Within U x)
    (mode : Mode) :
    Agrees Twin (Compiler.emitTree (.outer c₁ source nested₁) tree mode)
      (Compiler.emitTree (.outer c₂ source nested₂) tree mode) := by
  have hlist := fun mode => list_lockstep (twin_lockstep H source nested₁ nested₂) mode tree htree
  cases mode with
  | page =>
    refine ((hlist .page).bind fun code => .get_bind ?_).map _
    rintro s _ ⟨rfl, hs⟩
    dsimp only
    rw [hs.extended]
    exact .pure _
  | layout =>
    refine ((hlist .layout).bind fun code => .get_bind ?_).map _
    rintro s _ ⟨rfl, hs⟩
    dsimp only
    rw [hs.extended]
    exact twin_get_bind fun _ => .pure _

end
end Emit

/-! ### Compilers -/

namespace Compiler

theorem AgreeOn.compileSource {U : Use → Prop} {c₁ c₂ : Compiler} (H : c₁.AgreeOn U c₂)
    {text source : String}
    (htree : ∀ tree, c₂.parse text source = .ok tree → ∀ x ∈ Node.statements tree, Emit.Within U x)
    (mode : Mode) (d : Disk) :
    exec (c₁.compileSource text source mode) d = exec (c₂.compileSource text source mode) d := by
  unfold Compiler.compileSource
  rw [exec_compileTree, exec_compileTree, H.parse]
  cases hparse : c₂.parse text source with
  | error e => rfl
  | ok tree =>
    dsimp only
    rw [exec_emit, exec_emit, H.options]
    obtain ⟨hr, hstate, -⟩ := Emit.emitTree_twin H source c₁.nested c₂.nested
      (htree tree hparse) mode
      (.initial c₂.options.autoescape d) _ ⟨rfl, rfl, rfl⟩
    rw [hr, hstate]

theorem AgreeOn.compileString {U : Use → Prop} {c₁ c₂ : Compiler} (H : c₁.AgreeOn U c₂)
    {text : String}
    (htree : ∀ tree, c₂.parse text memorySource = .ok tree →
      ∀ x ∈ Node.statements tree, Emit.Within U x)
    (d : Disk) : exec (c₁.compileString text) d = exec (c₂.compileString text) d := by
  unfold Compiler.compileString
  rw [exec_bind, exec_bind, H.compileSource htree]

/-- The compiler with a name registered as what it is looked up as. A service is no more than
its name. -/
def register (c : Compiler) (f : Callable) : Use → Compiler
  | .function name => c.addFunction name f
  | .filter name => c.addFilter name f
  | .variable name => c.addService name

/-- A registration is about one name, as one thing. -/
theorem agreeOn_register (c : Compiler) (f : Callable) (u : Use) :
    (c.register f u).AgreeOn (· ≠ u) c where
  options := by cases u <;> rfl
  parse := by cases u <;> rfl
  extensions := by cases u <;> rfl
  makeStem := by cases u <;> rfl
  functions other h := by
    cases u with
    | function name =>
      have hne : other ≠ name := by simpa using h
      exact (lookup_cons_ite other name f c.functions).trans (if_neg hne)
    | _ => rfl
  filters other h := by
    cases u with
    | filter name =>
      have hne : other ≠ name := by simpa using h
      exact (lookup_cons_ite other name f c.filters).trans (if_neg hne)
    | _ => rfl
  services other h := by
    cases u with
    | «variable» name =>
      have hne : (other == name) = false := by simpa using h
      show (name :: c.services).contains other = c.services.contains other
      rw [List.contains_cons, hne, Bool.false_or]
    | _ => rfl

end Compiler

/-- No part of an expression in the nodes looks the name up, whether or not code is
generated for it. -/
def Node.Avoids (u : Use) (ns : List Node) : Prop :=
  ∀ x ∈ Node.statements ns, ∀ e ∈ x.exprs, e.all (·.look? != some u) = true

theorem Node.Avoids.not_mem_uses {u : Use} {ns : List Node} (h : Node.Avoids u ns) :
    u ∉ Node.uses ns := by
  simp only [Node.uses, Stmt.uses, List.mem_flatMap, not_exists, not_and]
  intro x hx e he
  exact Expr.not_mem_uses (fun _ hlook => by simpa using hlook) e (h x hx e he)

theorem Emit.within_of_not_mem_uses {u : Use} {ns : List Node} (hlinks : Node.links ns = [])
    (hu : u ∉ Node.uses ns) : ∀ x ∈ Node.statements ns, Emit.Within (· ≠ u) x := by
  intro x hx
  refine ⟨Node.link?_of_links hlinks hx, ?_⟩
  rintro e he _ hmem rfl
  exact hu (List.mem_flatMap.2 ⟨x, hx, List.mem_flatMap.2 ⟨e, he, hmem⟩⟩)

/-- **Registrations that are not used do not show.** In a template that names no other one, a
function of the name `n` counts only where `n` is called, a filter only where `n` is
applied, and a service only where `n` is a variable that code is generated for. Elsewhere
the code is the same with and without it, or compiling fails for the same reason. -/
theorem Compiler.compileString_unused (c : Compiler) (n : String) {text : String} {tree : Template}
    (hparse : c.parse text memorySource = .ok tree) (hlinks : Node.links tree = []) (d : Disk) :
    (Node.Avoids (.function n) tree → ∀ f,
      exec ((c.addFunction n f).compileString text) d = exec (c.compileString text) d) ∧
    (Node.Avoids (.filter n) tree → ∀ f,
      exec ((c.addFilter n f).compileString text) d = exec (c.compileString text) d) ∧
    (.variable n ∉ Node.uses tree →
      exec ((c.addService n).compileString text) d = exec (c.compileString text) d) := by
  have htree : ∀ {u : Use}, u ∉ Node.uses tree → ∀ tree', c.parse text memorySource = .ok tree' →
      ∀ x ∈ Node.statements tree', Emit.Within (· ≠ u) x := by
    intro u hu tree' hparse'
    cases hparse.symm.trans hparse'
    exact Emit.within_of_not_mem_uses hlinks hu
  refine ⟨fun h f => ?_, fun h f => ?_, fun h => ?_⟩
  · exact (c.agreeOn_register f (.function n)).compileString (htree h.not_mem_uses) d
  · exact (c.agreeOn_register f (.filter n)).compileString (htree h.not_mem_uses) d
  · exact (c.agreeOn_register (.name n) (.variable n)).compileString (htree h) d

namespace Drawer

/-- The name `empty` is an attribute and a built-in test. -/
def tree : Template :=
  [.mk (.ifThen (some (.isNot (.var "box") (.var "empty")))
    [.mk (.echo (some (.property (.var "box") (.var "empty")))) .unknown] none) .unknown]

/-- A compiler for this template. -/
def compiler : Compiler := { Compiler.initial with parse := fun _ _ => .ok tree }

/-- Fails wherever it is asked for code. -/
def jammed : Callable := .generator fun _ _ => .error (.pathResolution "drawer")

end Drawer

/-- A name that is written twice may be registered as anything. -/
theorem Compiler.compileString_unused_drawer :
    Node.links Drawer.tree = [] ∧ Node.Avoids (.function "empty") Drawer.tree ∧
      Node.Avoids (.filter "empty") Drawer.tree ∧ .variable "empty" ∉ Node.uses Drawer.tree ∧
      (exec (Drawer.compiler.compileString "") .empty).1 =
        .ok "<?php if (!(empty($box))) \x7b ?><?= $box->empty ?><?php \x7d ?>" ∧
      exec ((Drawer.compiler.addFunction "empty" Drawer.jammed).compileString "") .empty =
        exec (Drawer.compiler.compileString "") .empty ∧
      exec ((Drawer.compiler.addFilter "empty" Drawer.jammed).compileString "") .empty =
        exec (Drawer.compiler.compileString "") .empty ∧
      exec ((Drawer.compiler.addService "empty").compileString "") .empty =
        exec (Drawer.compiler.compileString "") .empty := by
  have hlinks : Node.links Drawer.tree = [] := by decide
  have hcalls : Node.Avoids (.function "empty") Drawer.tree := by unfold Node.Avoids; decide
  have hfilters : Node.Avoids (.filter "empty") Drawer.tree := by unfold Node.Avoids; decide
  have huses : .variable "empty" ∉ Node.uses Drawer.tree := by decide
  have hparse : Drawer.compiler.parse "" memorySource = .ok Drawer.tree := rfl
  obtain ⟨hfunction, hfilter, hservice⟩ :=
    compileString_unused Drawer.compiler "empty" hparse hlinks .empty
  exact ⟨hlinks, hcalls, hfilters, huses, by rfl, hfunction hcalls _, hfilter hfilters _,
    hservice huses⟩

end Stencil
