/-
# Generated code as a script

The code of a template is one text, but it is a program: sections of it branch, loop, jump
and define closures, and the braces that hold them together are written by different
statements. A script is that program as a tree. Each of its expressions remembers what it
was in the template and how many loops were open where it was emitted, and each of its
steps remembers the text that it is, so that the text of the whole script is the code.

`Stmt.Scripted` says which scripts a statement may become. It is a relation, since code
that is taken over from other templates can be any, and since what is known of an
expression differs from one theory to another: that is left to `Script.Rules`.

Key definitions: `Script.Step`, `Script.text`, `Script.loops`, `Stmt.Scripted`, `Node.Scripted`.
Key theorems: `Script.text_append`, `Node.Scripted.loops`.
-/
import Mathlib.Data.List.Forall2
import Stencil.Proofs.Plain

namespace Stencil

/-! ### The two ends of what encloses a body -/

namespace Code

/-- A macro definition up to its body. -/
def Macro.opening (name : String) (parameters : List String) : String :=
  if parameters.isEmpty then "<?php " ++ reference name ++ " = function() \x7b ?>"
  else "<?php " ++ reference name ++ " = function($__p = []) \x7b " ++
    String.join parameters ++ "?>"

/-- A macro definition after its body. -/
def Macro.closing (name : String) : String :=
  sect ("\x7d; " ++ reference name ++ " = \\Closure::bind(" ++ reference name ++ ", $this);")

theorem Macro.code_eq (name : String) (parameters : List String) (body : String) :
    code name parameters body = opening name parameters ++ body ++ closing name := rfl

/-- A cached fragment up to its body. -/
def cachedOpening (key : String) (lifetime : Option String) : String :=
  let slot := "$_cache[" ++ key ++ "]"
  let found := "$_cacheKey[" ++ key ++ "]"
  let start := match lifetime with
    | some l => commas [key, l]
    | none => key
  sect (slot ++ " = $this->di->get('viewCache'); " ++ found ++ " = " ++
    apply (slot ++ "->start") start ++ "; if (" ++ found ++ " === null) \x7b")

/-- A cached fragment after its body. -/
def cachedClosing (key : String) (lifetime : Option String) : String :=
  let slot := "$_cache[" ++ key ++ "]"
  let found := "$_cacheKey[" ++ key ++ "]"
  let save := match lifetime with
    | some l => commas [key, "null", l]
    | none => key
  sect (apply (slot ++ "->save") save ++ "; \x7d else \x7b echo " ++ found ++ "; \x7d")

theorem cached_eq (key : String) (lifetime : Option String) (body : String) :
    cached key lifetime body = cachedOpening key lifetime ++ body ++
      cachedClosing key lifetime := rfl

/-- What a loop with a branch for nothing to loop over notes before it starts. -/
def Loop.flag (l : Loop) : String :=
  if l.branched then sect (var l.stem "iterated = false;") else ""

/-- What each iteration begins with, once the record is up to date. -/
def Loop.entry (l : Loop) : String :=
  (match l.guard with
    | some g => ifOpen g
    | none => "") ++
    (if l.branched then sect (var l.stem "iterated = true;") else "")

theorem Loop.code_eq (l : Loop) :
    l.code = l.flag ++ ((if l.recorded then l.prologue else "") ++ l.opening ++
      (if l.recorded then l.refresh else "")) ++
      (l.entry ++ l.body ++ l.closing) := by
  unfold code flag entry
  cases l.guard <;> simp only [String.append_assoc]

end Code

namespace Script

/-! ### Scripts -/

/-- How a piece of code is left. -/
inductive Ending where
  /-- Its end is reached. -/
  | through
  /-- The loop around it goes on with its next iteration. -/
  | next
  /-- The loop or the switch around it is left. -/
  | stop
  /-- The page is left. -/
  | out
  deriving DecidableEq, Repr

/-- An expression of a script. -/
structure Term where
  /-- The expression of the template. -/
  expr : Expr
  /-- How many loops are open where it is emitted. -/
  depth : Nat
  code : String

/-- The depth of the loop whose record the term reads, if it reads one. -/
def Term.reads (t : Term) : Option Nat :=
  if 0 < t.depth ∧ t.expr.usesLoop = true then some t.depth else none

/-- A step of a script. -/
inductive Step where
  /-- Code that runs to its end. -/
  | run (terms : List Term) (code : String)
  | jump (how : Ending) (terms : List Term) (code : String)
  /-- Code of another template. -/
  | taken (code : String)
  /-- The counter of the loop whose variables start with `stem` advances. -/
  | advance (stem code : String)
  /-- One of the arms of the body is run, or none. -/
  | branch (terms : List Term) (opening : String) (body : List Step) (closing : String)
  /-- The next arm of a branch begins; `last` says that it has no condition. -/
  | turn (terms : List Term) (last : Bool) (code : String)
  /-- The cases are run from one of their labels on, or not at all. -/
  | choose (terms : List Term) (opening : String) (cases : List Step) (closing : String)
  | label (terms : List Term) (code : String)
  /-- The body is kept, and not run here. -/
  | closure (terms : List Term) (opening : String) (body : List Step) (closing : String)
  | loop (head : Code.Loop) (depth : Nat) (source : Term) (guard : Option Term) (body : List Step)
  /-- The loop is closed, and its branch for nothing to loop over opened; `advances` says
  that its counter advances here. -/
  | orElse (branch : Emit.Branch) (advances : Bool)

mutual

/-- The code that a step is. Blanks between the cases of a switch are reduced. -/
def Step.text : Step → String
  | .run _ code | .jump _ _ code | .taken code | .advance _ code | .turn _ _ code
  | .label _ code => code
  | .branch _ opening body closing
  | .closure _ opening body closing => opening ++ text body ++ closing
  | .choose _ opening cases closing => opening ++ Text.tidy (text cases) ++ closing
  | .loop head _ _ _ body => Code.Loop.code { head with body := text body }
  | .orElse b advances => Code.Loop.branch b.stem b.guarded advances

/-- The code that a script is. -/
def text : List Step → String
  | [] => ""
  | s :: rest => s.text ++ text rest

end

@[simp] theorem text_nil : text [] = "" := rfl

@[simp] theorem text_cons (s : Step) (rest : List Step) :
    text (s :: rest) = s.text ++ text rest := rfl

@[simp] theorem text_append (as bs : List Step) : text (as ++ bs) = text as ++ text bs := by
  induction as with
  | nil => simp
  | cons s rest ih => simp [ih, String.append_assoc]

theorem text_single (s : Step) : text [s] = s.text := by simp

mutual

/-- The loops among a step and those inside it, in the order of their code. -/
def Step.loops : Step → List Step
  | .branch _ _ body _ | .choose _ _ body _ | .closure _ _ body _ => loops body
  | .loop head depth source guard body => .loop head depth source guard body :: loops body
  | _ => []

/-- The loops of a script, in the order of their code. -/
def loops : List Step → List Step
  | [] => []
  | s :: rest => s.loops ++ loops rest

end

@[simp] theorem loops_nil : loops [] = [] := rfl

@[simp] theorem loops_cons (s : Step) (rest : List Step) :
    loops (s :: rest) = s.loops ++ loops rest := rfl

@[simp] theorem loops_append (as bs : List Step) : loops (as ++ bs) = loops as ++ loops bs := by
  induction as with
  | nil => rfl
  | cons s rest ih => simp [ih]

/-! ### Scripts of statements -/

/-- What is known of the code of a template. -/
structure Rules where
  /-- What is known of the code of an expression. -/
  term : Term → Prop
  /-- What is known of what the variables of loops start with. -/
  stem : String → Prop
  /-- A loop is known to be recorded just where its record is used. -/
  tracked : Bool

namespace Rules

variable (R : Rules) (depth : Nat)

/-- The term of an expression that may be missing. -/
inductive Optional : Option Expr → Option Term → Prop
  | none : Optional none none
  | some {e : Expr} {code : String} (h : R.term ⟨e, depth, code⟩) :
    Optional (some e) (some ⟨e, depth, code⟩)

/-- The terms and the code of assignments, each value before its target. -/
inductive Assigned : List Assignment → List Term → String → Prop
  | nil : Assigned [] [] ""
  | cons {target e : Expr} {op : AssignOp} {goal value : String} {rest : List Assignment}
      {ts : List Term}
      {code : String} (hvalue : R.term ⟨e, depth, value⟩) (htarget : R.term ⟨target, depth, goal⟩)
      (hrest : Assigned rest ts code) :
      Assigned (⟨target, op, some e⟩ :: rest) (⟨e, depth, value⟩ :: ⟨target, depth, goal⟩ :: ts)
        (" " ++ Code.between goal op.sign value ++ ";" ++ code)

/-- The terms of the parameters of a macro, and the code that binds each of them. -/
inductive Bound (name : String) : Nat → List Parameter → List Term → List String → Prop
  | nil {i : Nat} : Bound name i [] [] []
  | required {i : Nat} {p : String} {rest : List Parameter} {ts : List Term} {codes : List String}
      (hrest : Bound name (i + 1) rest ts codes) :
      Bound name i (⟨p, none⟩ :: rest) ts
        (Code.Macro.parameter i p (Code.Macro.refuse name p) :: codes)
  | optional {i : Nat} {p code : String} {e : Expr} {rest : List Parameter} {ts : List Term}
      {codes : List String}
      (h : R.term ⟨e, depth, code⟩) (hrest : Bound name (i + 1) rest ts codes) :
      Bound name i (⟨p, some e⟩ :: rest) (⟨e, depth, code⟩ :: ts)
        (Code.Macro.parameter i p (Code.Macro.fallback p code) :: codes)

end Rules

/-- How the code of an expression is printed at a spot. A call of the parent's block is code
already. -/
def printed (k : Plain.Spot) (e : Expr) (code : String) : String :=
  if e.isSuper then code else if k.autoescape then Code.printEscaped code else Code.print code

end Script

open Script (Rules Step Term)
open Plain (Spot)

mutual

/-- The statement becomes the script at the spot. Without `R.tracked` nothing is said of
whether loops are recorded, nor of what a branch for nothing to loop over knows of its loop. -/
inductive Stmt.Scripted (R : Rules) : Spot → Stmt → List Step → Prop
  | text {k : Spot} {value : String} : Stmt.Scripted R k (.text value) [.run [] value]
  | echo {k : Spot} {e : Expr} {code : String} (h : R.term ⟨e, k.depth, code⟩) :
      Stmt.Scripted R k (.echo (some e)) [.run [⟨e, k.depth, code⟩] (Script.printed k e code)]
  | ifThen {k : Spot} {e : Expr} {code : String} {body : List Node} {b : List Step}
      (h : R.term ⟨e, k.depth, code⟩) (hbody : Node.Scripted R (k.using e.usesLoop) body b) :
      Stmt.Scripted R k (.ifThen (some e) body none)
        [.branch [⟨e, k.depth, code⟩] (Code.ifOpen code) b Code.close]
  | ifElse {k : Spot} {e : Expr} {code : String} {body other : List Node} {b o : List Step}
      (h : R.term ⟨e, k.depth, code⟩) (hbody : Node.Scripted R (k.using e.usesLoop) body b)
      (hother : Node.Scripted R (k.using (e.usesLoop || Node.usesLoop body)) other o) :
      Stmt.Scripted R k (.ifThen (some e) body (some other))
        [.branch [⟨e, k.depth, code⟩] (Code.ifOpen code)
          (b ++ .turn [] true Code.elseOpen :: o) Code.close]
  | elseIf {k : Spot} {e : Expr} {code : String} (h : R.term ⟨e, k.depth, code⟩) :
      Stmt.Scripted R k (.elseIf (some e)) [.turn [⟨e, k.depth, code⟩] false (Code.elseIf code)]
  | switchOn {k : Spot} {e : Expr} {code : String} {cases : List Node} {b : List Step}
      (h : R.term ⟨e, k.depth, code⟩) (hcases : Node.Scripted R (k.using e.usesLoop) cases b) :
      Stmt.Scripted R k (.switchOn (some e) cases)
        [.choose [⟨e, k.depth, code⟩] (Code.sect ("switch (" ++ code ++ "):")) b
          (Code.sect "endswitch")]
  | caseOf {k : Spot} {e : Expr} {code : String} (h : R.term ⟨e, k.depth, code⟩) :
      Stmt.Scripted R k
        (.caseOf (some e)) [.label [⟨e, k.depth, code⟩] (Code.sect ("case " ++ code ++ ":"))]
  | caseDefault {k : Spot} : Stmt.Scripted R k .caseDefault [.label [] (Code.sect "default:")]
  | forIn {k : Spot} {target stem source : String} {key : Option String} {iterable : Expr}
      {guard : Option Expr}
      {g : Option Term} {body : List Node} {b : List Step} {recorded : Bool} (hstem : R.stem stem)
      (hsource : R.term ⟨iterable, k.depth + 1, source⟩) (hguard : R.Optional (k.depth + 1) guard g)
      (hbody : Node.Scripted R ((k.enter (stem ++ toString (k.depth + 1)) guard.isSome
        (body.any Node.isForElse)).using (Expr.usesLoopOption guard)) body b)
      (hrecorded : R.tracked = true →
        recorded = (Expr.usesLoopOption guard || Node.usesLoop body)) :
      Stmt.Scripted R k (.forIn target key (some iterable) guard body)
        [.loop ⟨stem ++ toString (k.depth + 1), source, target, key, g.map (·.code),
          Script.text b, recorded,
          body.any Node.isForElse⟩ (k.depth + 1) ⟨iterable, k.depth + 1, source⟩ g b]
  | forElse {k : Spot} {branch : Emit.Branch} {advances : Bool}
      (h : R.tracked = true → k.branch = some branch ∧ advances = k.used) :
      Stmt.Scripted R k .forElse [.orElse branch advances]
  | strayElse {k : Spot} (h : R.tracked = true → k.branch = none) : Stmt.Scripted R k .forElse []
  | assign {k : Spot} {as : List Assignment} {ts : List Term} {code : String} (hne : as ≠ [])
      (h : R.Assigned k.depth as ts code) :
        Stmt.Scripted R k (.assign as) [.run ts ("<?php" ++ code ++ " ?>")]
  | block {k : Spot} {name : String} {body : List Node} {b : List Step}
      (hbody : Node.Scripted R k body b) :
      Stmt.Scripted R k (.block name body) b
  | takeOver {k : Spot} {path code : String} :
      Stmt.Scripted R k (.including (some (.str path)) none) [.taken code]
  | including {k : Spot} {e : Expr} {code : String} (hne : ∀ path, e ≠ .str path)
      (h : R.term ⟨e, k.depth, code⟩) :
      Stmt.Scripted R k (.including (some e) none)
        [.run [⟨e, k.depth, code⟩] (Code.sect (Code.apply "$this->partial" code ++ ";"))]
  | includeWith {k : Spot} {e params : Expr} {code given : String} (h : R.term ⟨e, k.depth, code⟩)
      (hparams : R.term ⟨params, k.depth, given⟩) :
      Stmt.Scripted R k (.including (some e) (some params))
        [.run [⟨e, k.depth, code⟩, ⟨params, k.depth, given⟩]
          (Code.sect (Code.apply "$this->partial" (Code.commas [code, given]) ++ ";"))]
  | macroDef {k : Spot} {name : String} {params : List Parameter} {ts : List Term}
      {codes : List String}
      {body : List Node} {b : List Step} (hparams : R.Bound k.depth name 0 params ts codes)
      (hbody : Node.Scripted R (k.using (params.any (Expr.usesLoopOption ·.fallback))) body b) :
      Stmt.Scripted R k (.macroDef name params body)
        [.closure ts (Code.Macro.opening name codes) b (Code.Macro.closing name)]
  | evaluate {k : Spot} {e : Expr} {code : String} (h : R.term ⟨e, k.depth, code⟩) :
      Stmt.Scripted R k (.evaluate (some e)) [.run [⟨e, k.depth, code⟩] (Code.sect (code ++ ";"))]
  | returning {k : Spot} {e : Expr} {code : String} (h : R.term ⟨e, k.depth, code⟩) :
      Stmt.Scripted R k (.returning (some e))
        [.jump .out [⟨e, k.depth, code⟩] (Code.sect ("return " ++ code ++ ";"))]
  | autoescape {k : Spot} {enabled : Bool} {body : List Node} {b : List Step}
      (hbody : Node.Scripted R { k with autoescape := enabled } body b) :
      Stmt.Scripted R k (.autoescape (some enabled) body) b
  | continueLoop {k : Spot} :
    Stmt.Scripted R k .continueLoop [.jump .next [] (Code.sect "continue;")]
  | breakLoop {k : Spot} : Stmt.Scripted R k .breakLoop [.jump .stop [] (Code.sect "break;")]
  | cached {k : Spot} {e : Expr} {code : String} {lifetime : Option Expr} {l : Option Term}
      {body : List Node}
      {b : List Step} (h : R.term ⟨e, k.depth, code⟩) (hlifetime : R.Optional k.depth lifetime l)
      (hbody : Node.Scripted R (k.using (e.usesLoop || Expr.usesLoopOption lifetime)) body b) :
      Stmt.Scripted R k (.cached (some e) lifetime body)
        [.branch (⟨e, k.depth, code⟩ :: l.toList) (Code.cachedOpening code (l.map (·.code))) b
          (Code.cachedClosing code (l.map (·.code)))]

/-- The nodes become the script at the spot. -/
inductive Node.Scripted (R : Rules) : Spot → List Node → List Step → Prop
  | nil {k : Spot} : Node.Scripted R k [] []
  | cons {k : Spot} {s : Stmt} {pos : Position} {rest : List Node} {as bs : List Step}
      (hs : Stmt.Scripted R k s as) (hrest : Node.Scripted R (k.using s.usesLoop) rest bs) :
      Node.Scripted R k (.mk s pos :: rest) (as ++ bs)

end

/-- The statement is a loop. -/
def Stmt.isLoop : Stmt → Bool
  | .forIn .. => true
  | _ => false

/-- The loops among nodes and those inside them, in the order of the template. -/
def Node.loops (ns : List Node) : List Stmt := (Node.statements ns).filter Stmt.isLoop

/-- The statement is a loop and becomes this step at some spot. -/
def Stmt.BecomesLoop (R : Rules) (x : Stmt) (s : Step) : Prop :=
  x.isLoop = true ∧ ∃ k, x.Scripted R k [s]

mutual

/-- The loops of a statement are those of its script, one by one. -/
theorem Stmt.Scripted.loops {R : Rules} :
    ∀ {k : Spot} {x : Stmt} {steps : List Step}, x.Scripted R k steps →
    List.Forall₂ (Stmt.BecomesLoop R) (x.statements.filter Stmt.isLoop) (Script.loops steps)
  | _, _, _, .ifThen _ hbody => by
    simpa [Stmt.statements, Node.statementsOption, Stmt.isLoop, Step.loops] using hbody.loops
  | _, _, _, .ifElse _ hbody hother => by
    simpa [Stmt.statements, Node.statementsOption, Stmt.isLoop, Step.loops] using
      List.rel_append hbody.loops hother.loops
  | _, _, _, .switchOn _ hcases => by
    simpa [Stmt.statements, Stmt.isLoop, Step.loops] using hcases.loops
  | k, _, _, .forIn hstem hsource hguard hbody hrecorded => by
    simp only [Stmt.statements, Script.loops_cons, Step.loops, Script.loops_nil, List.append_nil]
    exact .cons ⟨rfl, k, .forIn hstem hsource hguard hbody hrecorded⟩ hbody.loops
  | _, _, _, .block hbody => by simpa [Stmt.statements, Stmt.isLoop] using hbody.loops
  | _, _, _, .macroDef _ hbody => by
    simpa [Stmt.statements, Stmt.isLoop, Step.loops] using hbody.loops
  | _, _, _, .autoescape hbody => by simpa [Stmt.statements, Stmt.isLoop] using hbody.loops
  | _, _, _, .cached _ _ hbody => by
    simpa [Stmt.statements, Stmt.isLoop, Step.loops] using hbody.loops
  | _, _, _, .text | _, _, _, .echo _ | _, _, _, .elseIf _ | _, _, _, .caseOf _
  | _, _, _, .caseDefault | _, _, _, .forElse _ | _, _, _, .strayElse _ | _, _, _, .assign _ _
  | _, _, _, .takeOver | _, _, _, .including _ _ | _, _, _, .includeWith _ _ | _, _, _, .evaluate _
  | _, _, _, .returning _ | _, _, _, .continueLoop | _, _, _, .breakLoop => by
    simp [Stmt.statements, Stmt.isLoop, Step.loops]

/-- The loops of nodes are those of their script, one by one. -/
theorem Node.Scripted.loops {R : Rules} :
    ∀ {k : Spot} {ns : List Node} {steps : List Step}, Node.Scripted R k ns steps →
    List.Forall₂ (Stmt.BecomesLoop R) ((Node.statements ns).filter Stmt.isLoop) (Script.loops steps)
  | _, _, _, .nil => .nil
  | _, _, _, .cons hs hrest => by
    simpa [Node.statements] using List.rel_append hs.loops hrest.loops

end

end Stencil
