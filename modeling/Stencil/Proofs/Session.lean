/-
# Sessions

A session is a list of compilations through one disk. This module says which
templates a session may compile, where their compiled files are, and when those
files keep out of the way of the templates. Templates that name one another
without a cycle are compiled to a bounded depth, which `need` counts.

Key definitions:
* `Call`, `Call.answer`, `Call.answers`: a compilation, what it gives, what a session gives.
* `Requested`: the templates that a session may compile.
* `Setting`: compiled files are separate from one another and from the templates.
* `need`: how deep compilations below a template go.
Key theorems: `need_lt`, `need_le_nestingLimit`.
-/
import Mathlib.Data.Finset.Card
import Mathlib.Logic.Relation
import Stencil.Proofs.Compile
import Stencil.Proofs.Lookup
import Stencil.Proofs.Tree

namespace Stencil

/-- The compiler with other values of the options that say when a compiled file is
used again. -/
def Compiler.tuned (c : Compiler) (always stat : Bool) : Compiler :=
  { c with options := { c.options with always := always, stat := stat } }

/-- A compilation of a session. -/
structure Call where
  template : String
  mode : Mode
  always : Bool
  stat : Bool

namespace Call

/-- The compilation as a computation on the disk. -/
def run (c : Compiler) (k : Call) : DiskM Compilation :=
  (c.tuned k.always k.stat).compile k.template k.mode

/-- What a compilation gives: the output and the path of the compiled file, or the
error. Whether a compiled file was used again is left out. -/
def answer (c : Compiler) (d : Disk) (k : Call) : Except CompileError (Output × String) :=
  (exec (k.run c) d).1.map fun r => (r.output, r.path)

/-- The disk after a compilation. -/
def after (c : Compiler) (d : Disk) (k : Call) : Disk := (exec (k.run c) d).2

/-- What the compilations of a session give, one after another. -/
def answers (c : Compiler) : Disk → List Call → List (Except CompileError (Output × String))
  | _, [] => []
  | d, k :: rest => k.answer c d :: answers c (k.after c d) rest

end Call

/-- The templates a session may compile, and their modes: those it is called with,
and those that one of them names by a literal. -/
inductive Requested (c : Compiler) (d : Disk) (calls : List Call) : String → Mode → Prop
  | call {k : Call} : k ∈ calls → Requested c d calls k.template k.mode
  | link {template : String} {mode : Mode} {tree : Template} {path : String} {linked : Mode} :
    Requested c d calls template mode → Holds c d template tree →
    (path, linked) ∈ Node.links tree → Requested c d calls (c.viewPath d path) linked

/-- The place of the compiled file of a template. -/
def CompiledAt (c : Compiler) (d : Disk) (template : String) (mode : Mode) (place : Place) : Prop :=
  ∃ compiled, c.compiledPath d template mode = .ok compiled ∧ d.locate compiled = .ok place

/-- The place is kept for a compiled file of the session. -/
def Kept (c : Compiler) (d : Disk) (calls : List Call) (place : Place) : Prop :=
  ∃ template mode, Requested c d calls template mode ∧ CompiledAt c d template mode place

/-- The template at the place `p` names one that is at the place `q`. -/
def Names (c : Compiler) (d : Disk) (p q : Place) : Prop :=
  ∃ template tree path linked, d.locate template = .ok p ∧ Holds c d template tree ∧
    (path, linked) ∈ Node.links tree ∧ d.locate (c.viewPath d path) = .ok q

/-- What a session starts from: no compiled files yet, room for each of them, and
none of them where another one or a template is looked for. -/
structure Setting (c : Compiler) (d : Disk) (calls : List Call) : Prop where
  /-- No template names itself, directly or through others. -/
  acyclic : ∀ p, ¬ Relation.TransGen (Names c d) p p
  /-- Each compiled file can be written, and is not there. -/
  vacant : ∀ template mode compiled, Requested c d calls template mode →
    c.compiledPath d template mode = .ok compiled →
    ∃ place, d.locate compiled = .ok place ∧ d.get? place = none
  /-- Different templates and modes have different compiled files. -/
  separate : ∀ template mode template' mode' place,
    Requested c d calls template mode → Requested c d calls template' mode' →
    CompiledAt c d template mode place → CompiledAt c d template' mode' place →
    template = template' ∧ mode = mode'
  /-- No compiled file is compiled. -/
  unnamed : ∀ template mode place, Requested c d calls template mode → Kept c d calls place →
    d.locate template ≠ .ok place
  /-- No compiled file is tried when a template is looked for in the views directories. -/
  untried : ∀ template mode tree path linked dir place, Requested c d calls template mode →
    Holds c d template tree → (path, linked) ∈ Node.links tree → dir ∈ c.options.viewsDirs →
    Kept c d calls place → d.locate (Path.join dir path) ≠ .ok place
  /-- The block maps of layouts can be stored and read again. -/
  codec : ∀ template m, Requested c d calls template .layout →
    (exec (c.compile template .layout) d).1.map (·.output) = .ok (.blocks m) →
    BlockMap.parse? m.text = some m
  /-- The options of the calls do not move compiled files. -/
  steady : ∀ k ∈ calls, ∀ template mode, Requested c d calls template mode →
    (c.tuned k.always k.stat).compiledPath d template mode = c.compiledPath d template mode

/-! ### Depth -/

section
variable (c : Compiler) (d : Disk)

open Classical in
/-- The number of files that the template at a place names, directly or through
others. -/
noncomputable def rank (p : Place) : Nat :=
  ((d.items.map (·.1)).toFinset.filter (Relation.TransGen (Names c d) p)).card

/-- How deep compilations of a template go. -/
noncomputable def need (template : String) : Nat :=
  match d.read template, d.locate template with
  | .ok _, .ok place => rank c d place + 2
  | _, _ => 1

theorem rank_le (p : Place) : rank c d p ≤ d.items.length := by
  classical
  calc rank c d p ≤ (d.items.map (·.1)).toFinset.card := Finset.card_filter_le _ _
    _ ≤ (d.items.map (·.1)).length := List.toFinset_card_le _
    _ = d.items.length := List.length_map _

theorem need_pos (template : String) : 1 ≤ need c d template := by
  unfold need
  split <;> omega

theorem need_le_nestingLimit (template : String) : need c d template ≤ Compiler.nestingLimit d := by
  unfold need Compiler.nestingLimit
  split
  · rename_i place _ _
    have := rank_le c d place
    omega
  · omega

variable {c d}

/-- Without cycles, fewer files are below a template that another one names. -/
theorem rank_lt (acyclic : ∀ p, ¬ Relation.TransGen (Names c d) p p) {p q : Place}
    (hn : Names c d p q) (hq : q ∈ d.items.map (·.1)) : rank c d q < rank c d p := by
  classical
  unfold rank
  refine Finset.card_lt_card (Finset.ssubset_iff_of_subset ?_ |>.2 ⟨q, ?_, ?_⟩)
  · intro r hr
    rw [Finset.mem_filter] at hr ⊢
    exact ⟨hr.1, .head hn hr.2⟩
  · exact Finset.mem_filter.2 ⟨List.mem_toFinset.2 hq, .single hn⟩
  · exact fun hr => acyclic q (Finset.mem_filter.1 hr).2

/-- Compilations of a template that another one names go less deep. -/
theorem need_lt (acyclic : ∀ p, ¬ Relation.TransGen (Names c d) p p) {template : String}
    {tree : Template} (h : Holds c d template tree) {path : String} {linked : Mode}
    (hl : (path, linked) ∈ Node.links tree) : need c d (c.viewPath d path) < need c d template := by
  obtain ⟨text, hread, -⟩ := id h
  obtain ⟨place, _, hplace, -⟩ := Disk.mem_of_read hread
  have hneed : need c d template = rank c d place + 2 := by
    unfold need
    rw [hread, hplace]
  rw [hneed]
  cases hread' : d.read (c.viewPath d path) with
  | error why =>
    have : need c d (c.viewPath d path) = 1 := by
      unfold need
      rw [hread']
    omega
  | ok text' =>
    obtain ⟨place', _, hplace', hmem⟩ := Disk.mem_of_read hread'
    have hneed' : need c d (c.viewPath d path) = rank c d place' + 2 := by
      unfold need
      rw [hread', hplace']
    have := rank_lt acyclic ⟨template, tree, path, linked, hplace, h, hl, hplace'⟩
      (List.mem_map_of_mem hmem)
    omega

end
end Stencil
