/-
# Iterations of a loop

A loop that keeps a record counts its iterations. The line that advances the counter is
emitted at the end of the loop, or where a branch for nothing to loop over closes the loop
before that. It stands outside of the guard, so that an iteration that the guard refuses
counts too. But it stands behind the body: an iteration that is broken off to go on with
the next one does not reach it. And a branch for nothing to loop over has the line only if
the record has been used by then.

`Script.Runs` says how a script may be left and how often it advances a counter on the way.
What is asked of the values that a script computes with is left open, so any condition may
hold or not.

Key definitions: `Script.iteration`, `Script.remainder`, `Script.Passes`, `Script.Runs`,
`Stmt.counted`, `Script.Step.Counts`.
Key theorems: `Script.text_loop`, `Script.Runs.free`, `Script.iteration_count`,
`Compiler.compileSource_counts`.
-/
import Stencil.Proofs.LoopRecords

namespace Stencil

open Plain (Spot)
open Script (Rules Step Term Ending)

namespace Script

/-! ### The parts of a loop -/

/-- The step closes its loop and opens the branch for nothing to loop over. -/
def Step.isOrElse : Step → Bool
  | .orElse _ _ => true
  | _ => false

/-- The counter advances where the branch for nothing to loop over is opened. -/
def Step.advances : Step → Bool
  | .orElse _ advances => advances
  | _ => false

/-- The steps of a body that belong to an iteration. -/
def looped (body : List Step) : List Step := body.takeWhile (! ·.isOrElse)

/-- The steps of a body that are run if there was nothing to loop over. -/
def otherwise (body : List Step) : List Step := (body.dropWhile (! ·.isOrElse)).tail

/-- The counter advances in each iteration that gets there. -/
def counting (head : Code.Loop) (body : List Step) : Bool :=
  if head.branched then (body.dropWhile (! ·.isOrElse)).head?.any (·.advances) else head.recorded

/-- The steps of an iteration up to the line that advances the counter. -/
def turnOf (head : Code.Loop) (body : List Step) : List Step :=
  let steps :=
    (if head.branched then [.run [] (Code.sect (Code.Loop.var head.stem "iterated = true;"))]
      else []) ++
    looped body
  (if head.recorded then [.run [] head.refresh] else []) ++
    match head.guard with
    | some g =>
      [.branch [] (Code.ifOpen g) steps (if head.branched then "<?php \x7d " else Code.close)]
    | none => steps

/-- What opens a section of code at the end of an iteration, unless one is open there. -/
def reopening (head : Code.Loop) : String :=
  if head.branched && head.guard.isSome then "" else "<?php "

/-- The steps of one iteration of a loop. -/
def iteration (head : Code.Loop) (body : List Step) : List Step :=
  turnOf head body ++
    if counting head body
      then [.advance head.stem (reopening head ++ Code.Loop.var head.stem "incr++; ")] else []

/-- What closes a loop after an iteration. -/
def footing (head : Code.Loop) (body : List Step) : String :=
  (if counting head body then "" else reopening head) ++
    if head.branched then "\x7d " else "\x7d ?>"

/-- The steps that follow a loop. -/
def remainder (head : Code.Loop) (body : List Step) : List Step :=
  if head.branched then
    [.branch [] ("if (!" ++ Code.Loop.var head.stem "iterated" ++ ") \x7b ?>")
      (otherwise body) Code.close]
  else []

/-- The body of a loop has a branch for nothing to loop over exactly if the loop says so, and
the branch knows the loop. -/
def Branched (head : Code.Loop) (body : List Step) : Prop :=
  if head.branched then
    ∃ advances rest, body = looped body ++ .orElse ⟨head.stem, head.guard.isSome⟩ advances :: rest
  else looped body = body

/-- What closes a loop without a branch for nothing to loop over. -/
theorem closing_eq (l : Code.Loop) (h : l.branched = false) :
    l.closing = (if l.guard.isSome then Code.close else "") ++
      ((if l.recorded then "<?php " ++ Code.Loop.var l.stem "incr++; " else "<?php ") ++
        "\x7d ?>") := by
  have hincr : Code.sect (Code.Loop.var l.stem "incr++; \x7d") =
      "<?php " ++ Code.Loop.var l.stem "incr++; " ++ "\x7d ?>" := by
    have hname : "incr++; \x7d" = "incr++; " ++ "\x7d" := rfl
    have hend : "\x7d ?>" = "\x7d" ++ " ?>" := rfl
    rw [hend]
    unfold Code.sect Code.Loop.var
    rw [hname]
    simp only [String.append_assoc]
  unfold Code.Loop.closing
  rw [h, hincr]
  cases l.recorded <;> rfl

theorem branch_eq (stem : String) (guarded advances : Bool) :
    Code.Loop.branch stem guarded advances =
      "<?php " ++ (if guarded then "\x7d " else "") ++
      (if advances then Code.Loop.var stem "incr++; " else "") ++
        "\x7d " ++ ("if (!" ++ Code.Loop.var stem "iterated" ++ ") \x7b ?>") := by
  have hopen : "\x7d if (!" = "\x7d " ++ "if (!" := rfl
  have hend : ") \x7b ?>" = ") \x7b" ++ " ?>" := rfl
  unfold Code.Loop.branch Code.sect
  rw [hopen, hend]
  simp only [String.append_assoc]

/-- Steps that open no branch belong to the iteration. -/
theorem looped_append {as : List Step} (h : ∀ s ∈ as, s.isOrElse = false) (bs : List Step) :
    looped (as ++ bs) = as ++ looped bs :=
  List.takeWhile_append_of_pos fun s hs => by rw [h s hs]; rfl

theorem dropWhile_of_split {body : List Step} {b : Emit.Branch} {advances : Bool} {rest : List Step}
    (h : body = looped body ++ .orElse b advances :: rest) :
    body.dropWhile (! ·.isOrElse) = .orElse b advances :: rest := by
  have hsplit : body = looped body ++ body.dropWhile (! ·.isOrElse) :=
    List.takeWhile_append_dropWhile.symm
  exact List.append_cancel_left (hsplit.symm.trans h)

/-- The code of a loop is what opens it, one iteration, what closes it, and what follows. -/
theorem text_loop {head : Code.Loop} {depth : Nat} {source : Term} {guard : Option Term}
    {body : List Step} (h : Branched head body) :
    (Step.loop head depth source guard body).text =
      head.flag ++ (if head.recorded then head.prologue else "") ++ head.opening ++
      text (iteration head body) ++
        footing head body ++ text (remainder head body) := by
  have hcode : (Step.loop head depth source guard body).text =
      head.flag ++ (if head.recorded then head.prologue else "") ++ head.opening ++
        ((if head.recorded then head.refresh else "") ++ head.entry ++ text body ++
          head.closing) := by
    rw [Step.text, Code.Loop.code_eq]
    simp only [String.append_assoc]
    rfl
  rw [hcode]
  unfold Branched at h
  -- the pieces are the same in each of the few forms that a loop has
  cases hbranched : head.branched with
  | false =>
    rw [hbranched, if_neg Bool.false_ne_true] at h
    rw [closing_eq head hbranched]
    cases hrecorded : head.recorded <;> cases hguard : head.guard <;>
      simp [iteration, turnOf, footing, remainder, counting, reopening, Code.Loop.entry, Step.text,
        hbranched, hrecorded, hguard, h, String.append_assoc]
  | true =>
    rw [hbranched, if_pos rfl] at h
    obtain ⟨advances, rest, h⟩ := h
    have hdrop := dropWhile_of_split h
    have hbody : text body =
        text (looped body) ++
          (Code.Loop.branch head.stem head.guard.isSome advances ++ text rest) :=
      (congrArg text h).trans (by rw [text_append, text_cons, Step.text])
    rw [hbody, branch_eq]
    cases hrecorded : head.recorded <;> cases hguard : head.guard <;> cases advances <;>
      simp [iteration, turnOf, footing, remainder, counting, reopening, otherwise, Code.Loop.entry,
        Code.Loop.closing, Step.text, Step.advances, hbranched, hrecorded, hguard, hdrop,
        String.append_assoc]

/-! ### Runs -/

/-- The next arm of a branch begins. -/
def Step.isTurn : Step → Bool
  | .turn _ _ _ => true
  | _ => false

/-- The next arm of a branch begins, and has no condition. -/
def Step.isLastTurn : Step → Bool
  | .turn _ last _ => last
  | _ => false

/-- The arms of a branch. -/
def arms : List Step → List (List Step)
  | [] => [[]]
  | s :: rest => if s.isTurn then [] :: arms rest else (arms rest).modifyHead (s :: ·)

/-- The step is a label of a switch. -/
def Step.isLabel : Step → Bool
  | .label _ _ => true
  | _ => false

/-- The step is the label for all other values. -/
def Step.isDefault : Step → Bool
  | .label [] _ => true
  | _ => false

/-- How a switch is left if its cases are left so. A switch counts as a loop for jumps. -/
def Ending.ofCases : Ending → Ending
  | .out => .out
  | _ => .through

/-- The loop goes on with its next iteration. -/
def Ending.goesOn : Ending → Bool
  | .through | .next => true
  | .stop | .out => false

variable (taken : String → Ending → Nat → Prop) (stem : String)

mutual

/-- The step may be left so, and has advanced the counter of the loop whose variables start
with `stem` that often. `taken` says this of code of other templates. A turn or the opening
of a branch for nothing to loop over is not run by itself. -/
inductive Passes : Step → Ending → Nat → Prop
  | run {ts : List Term} {code : String} : Passes (.run ts code) .through 0
  | jump {how : Ending} {ts : List Term} {code : String} : Passes (.jump how ts code) how 0
  | taken {code : String} {e : Ending} {n : Nat} (h : taken code e n) : Passes (.taken code) e n
  | advance {other code : String} :
    Passes (.advance other code) .through (if other = stem then 1 else 0)
  | arm {ts : List Term} {opening closing : String} {body arm : List Step} {e : Ending} {n : Nat}
      (harm : arm ∈ arms body) (hrun : Runs arm e n) : Passes (.branch ts opening body closing) e n
  | noArm {ts : List Term} {opening closing : String} {body : List Step}
      (hlast : body.any Step.isLastTurn = false) :
        Passes (.branch ts opening body closing) .through 0
  | case {ts : List Term} {opening closing : String} {cases rest : List Step} {l : Step}
      {e : Ending} {n : Nat}
      (hlabel : l.isLabel = true) (hcases : l :: rest <:+ cases) (hrun : Runs rest e n) :
      Passes (.choose ts opening cases closing) e.ofCases n
  | noCase {ts : List Term} {opening closing : String} {cases : List Step}
      (hdefault : cases.any Step.isDefault = false) :
        Passes (.choose ts opening cases closing) .through 0
  | label {ts : List Term} {code : String} : Passes (.label ts code) .through 0
  | closure {ts : List Term} {opening closing : String} {body : List Step} :
      Passes (.closure ts opening body closing) .through 0
  | again {head : Code.Loop} {depth : Nat} {source : Term} {guard : Option Term} {body : List Step}
      {e e' : Ending}
      {m n : Nat} (hturn : Runs (iteration head body) e m) (hagain : e.goesOn = true)
      (hrest : Passes (.loop head depth source guard body) e' n) :
        Passes (.loop head depth source guard body) e' (m + n)
  | over {head : Code.Loop} {depth : Nat} {source : Term} {guard : Option Term} {body : List Step}
      {e : Ending} {n : Nat}
      (hrest : Runs (remainder head body) e n) : Passes (.loop head depth source guard body) e n
  | stopped {head : Code.Loop} {depth : Nat} {source : Term} {guard : Option Term}
      {body : List Step} {e : Ending}
      {m n : Nat} (hturn : Runs (iteration head body) .stop m)
        (hrest : Runs (remainder head body) e n) :
      Passes (.loop head depth source guard body) e (m + n)
  | left {head : Code.Loop} {depth : Nat} {source : Term} {guard : Option Term}
      {body : List Step} {n : Nat}
      (hturn : Runs (iteration head body) .out n) :
        Passes (.loop head depth source guard body) .out n

/-- The steps may be left so, and have advanced the counter that often. -/
inductive Runs : List Step → Ending → Nat → Prop
  | nil : Runs [] .through 0
  | cons {s : Step} {rest : List Step} {e : Ending} {m n : Nat} (hs : Passes s .through m)
      (hrest : Runs rest e n) :
      Runs (s :: rest) e (m + n)
  | leave {s : Step} {rest : List Step} {e : Ending} {n : Nat} (hs : Passes s e n)
      (he : e ≠ .through) :
      Runs (s :: rest) e n

end

mutual

/-- The step does not advance the counter of the loop whose variables start with `stem`. -/
def Step.Free (stem : String) : Step → Prop
  | .advance other _ => other ≠ stem
  | .branch _ _ body _ | .choose _ _ body _ => Free stem body
  | .loop head _ _ _ body => head.stem ≠ stem ∧ Free stem body
  | _ => True

/-- None of the steps advances the counter. -/
def Free (stem : String) : List Step → Prop
  | [] => True
  | s :: rest => s.Free stem ∧ Free stem rest

end

section
variable {taken : String → Ending → Nat → Prop} {stem : String}

theorem free_iff {steps : List Step} : Free stem steps ↔ ∀ s ∈ steps, s.Free stem := by
  induction steps with
  | nil => simp [Free]
  | cons s rest ih => simp [Free, ih]

/-- Being free is kept by all ways of taking steps out. -/
theorem Free.mono {as bs : List Step} (h : Free stem bs) (hsub : ∀ s ∈ as, s ∈ bs) : Free stem as :=
  free_iff.2 fun s hs => free_iff.1 h s (hsub s hs)

theorem free_append {as bs : List Step} : Free stem (as ++ bs) ↔ Free stem as ∧ Free stem bs := by
  simp only [free_iff, List.forall_mem_append]

theorem mem_of_mem_arms {body arm : List Step} (h : arm ∈ arms body) : ∀ s ∈ arm, s ∈ body := by
  induction body generalizing arm with
  | nil =>
    rw [List.mem_singleton.1 h]
    exact nofun
  | cons t rest ih =>
    rw [arms] at h
    split at h
    · rcases List.mem_cons.1 h with rfl | h
      · exact nofun
      · exact fun s hs => List.mem_cons_of_mem _ (ih h s hs)
    · cases hrest : arms rest with
      | nil => simp [hrest] at h
      | cons first others =>
        rw [hrest, List.modifyHead_cons] at h
        rcases List.mem_cons.1 h with rfl | h
        · intro s hs
          rcases List.mem_cons.1 hs with rfl | hs
          · exact List.mem_cons_self
          · exact List.mem_cons_of_mem _ (ih (hrest ▸ List.mem_cons_self) s hs)
        · exact fun s hs => List.mem_cons_of_mem _ (ih (hrest ▸ List.mem_cons_of_mem _ h) s hs)

theorem turnOf_free {head : Code.Loop} {body : List Step} (h : Free stem body) :
    Free stem (turnOf head body) := by
  have hlooped : Free stem (looped body) := h.mono fun s hs => (List.takeWhile_sublist _).mem hs
  unfold turnOf
  cases head.guard <;> cases head.recorded <;> cases head.branched <;>
    simp [Free, Step.Free, hlooped]

theorem iteration_free {head : Code.Loop} {body : List Step} (hstem : head.stem ≠ stem)
    (h : Free stem body) :
    Free stem (iteration head body) := by
  unfold iteration
  refine free_append.2 ⟨turnOf_free h, ?_⟩
  split
  · exact ⟨hstem, trivial⟩
  · trivial

theorem remainder_free {head : Code.Loop} {body : List Step} (h : Free stem body) :
    Free stem (remainder head body) := by
  have hrest : Free stem (otherwise body) := h.mono fun s hs =>
    (List.dropWhile_sublist _).mem (List.mem_of_mem_tail hs)
  unfold remainder
  split
  · exact ⟨hrest, trivial⟩
  · trivial

mutual

/-- A step that does not advance the counter does not. -/
theorem Passes.free (htaken : ∀ code e n, taken code e n → n = 0) :
    ∀ {s : Step} {e : Ending} {n : Nat},
    Passes taken stem s e n → s.Free stem → n = 0
  | _, _, _, .run, _ | _, _, _, .jump, _ | _, _, _, .noArm _, _ | _, _, _, .noCase _, _
  | _, _, _, .label, _ | _, _, _, .closure, _ => rfl
  | _, _, _, .taken h, _ => htaken _ _ _ h
  | _, _, _, .advance, h => if_neg h
  | _, _, _, .arm harm hrun, h => hrun.free htaken (h.mono (mem_of_mem_arms harm))
  | _, _, _, .case _ hcases hrun, h =>
    hrun.free htaken (h.mono fun _ hs => hcases.mem (List.mem_cons_of_mem _ hs))
  | _, _, _, .again hturn _ hrest, h => by
    rw [hturn.free htaken (iteration_free h.1 h.2), hrest.free htaken h]
  | _, _, _, .over hrest, h => hrest.free htaken (remainder_free h.2)
  | _, _, _, .stopped hturn hrest, h => by
    rw [hturn.free htaken (iteration_free h.1 h.2), hrest.free htaken (remainder_free h.2)]
  | _, _, _, .left hturn, h => hturn.free htaken (iteration_free h.1 h.2)

/-- Steps that do not advance the counter do not, however they are left. -/
theorem Runs.free (htaken : ∀ code e n, taken code e n → n = 0) :
    ∀ {steps : List Step} {e : Ending} {n : Nat},
    Runs taken stem steps e n → Free stem steps → n = 0
  | _, _, _, .nil, _ => rfl
  | _, _, _, .cons hs hrest, h => by rw [hs.free htaken h.1, hrest.free htaken h.2]
  | _, _, _, .leave hs _, h => hs.free htaken h.1

end

/-- Steps one after another are left in the first part, or that is run to its end. -/
theorem runs_append {as bs : List Step} {e : Ending} {n : Nat}
    (h : Runs taken stem (as ++ bs) e n) :
    (Runs taken stem as e n ∧ e ≠ .through) ∨
      ∃ m k, Runs taken stem as .through m ∧ Runs taken stem bs e k ∧ n = m + k := by
  induction as generalizing n with
  | nil => exact .inr ⟨0, n, .nil, h, (Nat.zero_add n).symm⟩
  | cons s rest ih =>
    cases h with
    | cons hs hrest =>
      rcases ih hrest with ⟨hleft, he⟩ | ⟨m, k, hdone, hbs, rfl⟩
      · exact .inl ⟨.cons hs hleft, he⟩
      · exact .inr ⟨_, k, .cons hs hdone, hbs, by omega⟩
    | leave hs he => exact .inl ⟨.leave hs he, he⟩

/-- An iteration that reaches its end has advanced the counter once, if it advances it at
all. One that is left before has not. -/
theorem iteration_count (htaken : ∀ code e n, taken code e n → n = 0) {head : Code.Loop}
    {body : List Step}
    (hfree : Free head.stem body) {e : Ending} {n : Nat}
    (h : Runs taken head.stem (iteration head body) e n) :
    n = if e = .through ∧ counting head body = true then 1 else 0 := by
  unfold iteration at h
  rcases runs_append h with ⟨hturn, he⟩ | ⟨m, k, hturn, hrest, rfl⟩
  · rw [hturn.free htaken (turnOf_free hfree), if_neg fun h => he h.1]
  · rw [hturn.free htaken (turnOf_free hfree), Nat.zero_add]
    by_cases hcount : counting head body = true
    · rw [if_pos hcount] at hrest
      cases hrest with
      | cons hs hnil =>
        cases hs
        cases hnil
        simp [hcount]
      | leave hs he =>
        cases hs
        exact absurd rfl he
    · rw [if_neg hcount] at hrest
      cases hrest
      simp [hcount]

end

end Script

/-! ### Loops with a branch for nothing to loop over -/

mutual

/-- A branch for nothing to loop over is opened in the statement, outside of loops inside. -/
def Stmt.hasElse : Stmt → Bool
  | .forElse => true
  | .ifThen _ body elseBody => Node.hasElse body || Node.hasElseOption elseBody
  | .switchOn _ body | .block _ body | .macroDef _ _ body | .autoescape _ body
  | .cached _ _ body => Node.hasElse body
  | _ => false

/-- A branch for nothing to loop over is opened in one of the nodes. -/
def Node.hasElse : List Node → Bool
  | [] => false
  | .mk s _ :: rest => s.hasElse || Node.hasElse rest

/-- A branch for nothing to loop over is opened in the nodes, if there are any. -/
def Node.hasElseOption : Option (List Node) → Bool
  | none => false
  | some ns => Node.hasElse ns

end

/-- The body of a loop opens a branch for nothing to loop over at most once, and directly. -/
inductive Node.ElseOnce : List Node → Prop
  | never {body : List Node} (h : Node.hasElse body = false) : ElseOnce body
  | once {before after : List Node} {pos : Position} (hbefore : Node.hasElse before = false)
      (hafter : Node.hasElse after = false) : ElseOnce (before ++ .mk .forElse pos :: after)

/-- A loop opens a branch for nothing to loop over at most once, and directly in its body. -/
def Stmt.ElseOnce : Stmt → Prop
  | .forIn _ _ _ _ body => Node.ElseOnce body
  | _ => True

/-- An iteration of the loop that reaches its end is counted: there is no branch for nothing
to loop over, or the record of the loop is used before it. -/
def Stmt.counted : Stmt → Bool
  | .forIn _ _ _ guard body =>
    !body.any Node.isForElse || Expr.usesLoopOption guard ||
      Node.usesLoop (body.takeWhile (! ·.isForElse))
  | _ => false

theorem Node.isForElse_of_hasElse {ns : List Node} (h : Node.hasElse ns = false) :
    ∀ n ∈ ns, n.isForElse = false := by
  induction ns with
  | nil => exact nofun
  | cons n rest ih =>
    obtain ⟨s, pos⟩ := n
    simp only [Node.hasElse, Bool.or_eq_false_iff] at h
    refine List.forall_mem_cons.2 ⟨?_, ih h.2⟩
    cases s with
    | forElse => exact absurd h.1 Bool.false_ne_true.symm
    | _ => rfl

section
variable {R : Rules}

mutual

/-- Where no branch for nothing to loop over is opened, the script has none. -/
theorem Stmt.Scripted.isOrElse_eq_false :
    ∀ {k : Spot} {x : Stmt} {steps : List Step}, x.Scripted R k steps →
    x.hasElse = false → ∀ s ∈ steps, s.isOrElse = false
  | _, _, _, .block hbody, h => hbody.isOrElse_eq_false h
  | _, _, _, .autoescape hbody, h => hbody.isOrElse_eq_false h
  | _, _, _, .forElse _, h => absurd h Bool.false_ne_true.symm
  | _, _, _, .strayElse _, _ => nofun
  | _, _, _, .text, _ | _, _, _, .echo _, _ | _, _, _, .ifThen _ _, _ | _, _, _, .ifElse _ _ _, _
  | _, _, _, .elseIf _, _ | _, _, _, .switchOn _ _, _ | _, _, _, .caseOf _, _
  | _, _, _, .caseDefault, _ | _, _, _, .forIn _ _ _ _ _, _ | _, _, _, .assign _ _, _
  | _, _, _, .takeOver, _ | _, _, _, .including _ _, _ | _, _, _, .includeWith _ _, _
  | _, _, _, .macroDef _ _, _ | _, _, _, .evaluate _, _ | _, _, _, .returning _, _
  | _, _, _, .continueLoop, _ | _, _, _, .breakLoop, _ | _, _, _, .cached _ _ _, _ => by
    intro s hs
    rw [List.mem_singleton.1 hs]
    rfl

theorem Node.Scripted.isOrElse_eq_false :
    ∀ {k : Spot} {ns : List Node} {steps : List Step}, Node.Scripted R k ns steps →
    Node.hasElse ns = false → ∀ s ∈ steps, s.isOrElse = false
  | _, _, _, .nil, _ => nofun
  | _, _, _, .cons hs hrest, h => by
    simp only [Node.hasElse, Bool.or_eq_false_iff] at h
    exact List.forall_mem_append.2 ⟨hs.isOrElse_eq_false h.1, hrest.isOrElse_eq_false h.2⟩

end

/-- Loops of different depths have different variables. -/
theorem Plain.depth_eq_of_stem {p : String} {a b : Nat} (h : p ++ toString a = p ++ toString b) :
    a = b := by
  rw [String.append_right_inj] at h
  have hdigits : Nat.toDigits 10 a = Nat.toDigits 10 b := String.ofList_injective h
  have hvalue := congrArg (Nat.ofDigitChars 10 · 0) hdigits
  simpa [Nat.ofDigitChars_ten_toDigits] using hvalue

/-- Nodes one after another have their scripts one after another. -/
theorem Node.Scripted.append {as bs : List Node} {k : Spot} {steps : List Step}
    (h : Node.Scripted R k (as ++ bs) steps) :
    ∃ sa sb, steps = sa ++ sb ∧ Node.Scripted R k as sa ∧
      Node.Scripted R (k.using (Node.usesLoop as)) bs sb := by
  induction as generalizing k steps with
  | nil =>
    rw [Node.usesLoop, Spot.using_false]
    exact ⟨[], steps, rfl, .nil, h⟩
  | cons n rest ih =>
    cases h with
    | cons hs hrest =>
      obtain ⟨sa, sb, rfl, ha, hb⟩ := ih hrest
      rw [Spot.using_using] at hb
      exact ⟨_, sb, (List.append_assoc _ _ _).symm, .cons hs ha, hb⟩

mutual

/-- The counter of a loop is advanced by the loop itself, and not in what is inside of it. -/
theorem Stmt.Scripted.free {p : String} (hstem : ∀ x, R.stem x → x = p) {d : Nat} :
    ∀ {k : Spot} {x : Stmt}
    {steps : List Step}, x.Scripted R k steps → d ≤ k.depth → Script.Free (p ++ toString d) steps
  | _, _, _, .ifThen _ hbody, h => ⟨hbody.free hstem h, trivial⟩
  | _, _, _, .ifElse _ hbody hother, h =>
    ⟨Script.free_append.2 ⟨hbody.free hstem h, trivial, hother.free hstem h⟩, trivial⟩
  | _, _, _, .switchOn _ hcases, h => ⟨hcases.free hstem h, trivial⟩
  | k, _, _, @Stmt.Scripted.forIn _ _ _ stem _ _ _ _ _ _ _ _ hp _ _ hbody _, h => by
    refine ⟨⟨fun heq => ?_, hbody.free hstem (Nat.le_succ_of_le h)⟩, trivial⟩
    have heq : stem ++ toString (k.depth + 1) = p ++ toString d := heq
    rw [hstem stem hp] at heq
    have hdepth := Plain.depth_eq_of_stem heq
    omega
  | _, _, _, .block hbody, h => hbody.free hstem h
  | _, _, _, .autoescape hbody, h => hbody.free hstem h
  | _, _, _, .cached _ _ hbody, h => ⟨hbody.free hstem h, trivial⟩
  | _, _, _, .strayElse _, _ => trivial
  | _, _, _, .text, _ | _, _, _, .echo _, _ | _, _, _, .elseIf _, _ | _, _, _, .caseOf _, _
  | _, _, _, .caseDefault, _ | _, _, _, .forElse _, _ | _, _, _, .assign _ _, _
  | _, _, _, .takeOver, _ | _, _, _, .including _ _, _ | _, _, _, .includeWith _ _, _
  | _, _, _, .macroDef _ _, _ | _, _, _, .evaluate _, _ | _, _, _, .returning _, _
  | _, _, _, .continueLoop, _ | _, _, _, .breakLoop, _ => ⟨trivial, trivial⟩

theorem Node.Scripted.free {p : String} (hstem : ∀ x, R.stem x → x = p) {d : Nat} :
    ∀ {k : Spot} {ns : List Node}
    {steps : List Step}, Node.Scripted R k ns steps → d ≤ k.depth →
      Script.Free (p ++ toString d) steps
  | _, _, _, .nil, _ => trivial
  | _, _, _, .cons hs hrest, h => Script.free_append.2 ⟨hs.free hstem h, hrest.free hstem h⟩

end

/-- The body of a loop that opens a branch for nothing to loop over at most once, and
directly: what is before the branch belongs to the iterations, and the branch has noted
whether the record was used by then. -/
theorem Node.Scripted.looped (htracked : R.tracked = true) {j : Spot} {body : List Node}
    {b : List Step}
    (branch : Emit.Branch) (hbody : Node.Scripted R j body b) (helse : Node.ElseOnce body)
    (hbranch : body.any Node.isForElse = true → j.branch = some branch) :
    if body.any Node.isForElse then
      ∃ rest, b = Script.looped b ++
        .orElse branch (j.using (Node.usesLoop (body.takeWhile (! ·.isForElse)))).used :: rest
    else Script.looped b = b := by
  cases helse with
  | never hnone =>
    have hany : body.any Node.isForElse = false := by simpa using Node.isForElse_of_hasElse hnone
    rw [hany, if_neg Bool.false_ne_true]
    have hself := Script.looped_append (hbody.isOrElse_eq_false hnone) []
    rw [List.append_nil] at hself
    exact hself.trans (List.append_nil b)
  | @once before after pos hbefore hafter =>
    have hany : (before ++ .mk .forElse pos :: after).any Node.isForElse = true := by
      simp [Node.isForElse]
    have hsplit : (before ++ .mk .forElse pos :: after).takeWhile (! ·.isForElse) = before := by
      rw [List.takeWhile_append_of_pos fun n hn => by simp [Node.isForElse_of_hasElse hbefore n hn]]
      simp [Node.isForElse]
    have hj := hbranch hany
    rw [if_pos hany, hsplit]
    obtain ⟨sb, _, rfl, hb, hrest⟩ := hbody.append
    rw [Script.looped_append (hb.isOrElse_eq_false hbefore)]
    cases hrest with
    | @cons _ _ _ _ _ sa hs _ =>
      cases hs with
      | forElse h =>
        obtain ⟨hsome, rfl⟩ := h htracked
        cases hsome.symm.trans hj
        exact ⟨sa, by simp [Script.looped, Step.isOrElse]⟩
      | strayElse h => cases (h htracked).symm.trans hj

end

/-- The step is a loop. Its code is what opens it, one iteration, what closes it, and what
follows. An iteration advances the counter once if it reaches its end and `counted` says so,
and never otherwise, provided that code of other templates leaves the counter alone. -/
def Script.Step.Counts (counted : Bool) : Step → Prop
  | .loop head depth source guard body =>
    (Step.loop head depth source guard body).text =
      head.flag ++ (if head.recorded then head.prologue else "") ++ head.opening ++
        Script.text (Script.iteration head body) ++ Script.footing head body ++
          Script.text (Script.remainder head body) ∧
    ∀ taken : String → Ending → Nat → Prop, (∀ code e n, taken code e n → n = 0) →
      ∀ e n, Script.Runs taken head.stem (Script.iteration head body) e n →
        n = if e = .through ∧ counted = true then 1 else 0
  | _ => False

theorem Stmt.BecomesLoop.counts {S : Plain.Site} {x : Stmt} {s : Step} (h : x.BecomesLoop S.rules s)
    (howns : x.ownsRecord = true) (helse : x.ElseOnce) : s.Counts x.counted := by
  obtain ⟨hx, k, h⟩ := h
  cases h with
  | @forIn _ target stem source key iterable guard g body b _ hstem hsource hguard hbody hrecorded =>
    have hkeeps := (hrecorded rfl).trans howns
    have hsome : (g.map (·.code)).isSome = guard.isSome := by cases hguard <;> rfl
    have hlooped := Node.Scripted.looped rfl
      ⟨stem ++ toString (k.depth + 1), guard.isSome⟩ hbody helse fun hany => by
      simp [Spot.enter, hany]
    have hfree :=
      hbody.free (fun x (hx : S.stem? = some x) => Option.some.inj (hx.symm.trans hstem))
      (Nat.le_refl (k.depth + 1))
    rw [Spot.using_using] at hlooped
    unfold Script.Step.Counts
    cases hany : body.any Node.isForElse with
    | false =>
      have hcounted : Stmt.counted (.forIn target key (some iterable) guard body) = true := by
        rw [Stmt.counted, hany, Bool.not_false, Bool.true_or, Bool.true_or]
      rw [hany, if_neg Bool.false_ne_true] at hlooped
      refine ⟨Script.text_loop hlooped, fun taken htaken e n hrun => ?_⟩
      rw [Script.iteration_count htaken hfree hrun, hcounted, Script.counting,
        if_neg Bool.false_ne_true, hkeeps]
    | true =>
      have hcounted : Stmt.counted (.forIn target key (some iterable) guard body) =
          (Expr.usesLoopOption guard || Node.usesLoop (body.takeWhile (! ·.isForElse))) := by
        rw [Stmt.counted, hany, Bool.not_true, Bool.false_or]
      rw [hany, if_pos rfl] at hlooped
      obtain ⟨rest, hrest⟩ := hlooped
      refine ⟨Script.text_loop ⟨_, rest, by rw [hsome]; exact hrest⟩,
        fun taken htaken e n hrun => ?_⟩
      rw [Script.iteration_count htaken hfree hrun, hcounted, Script.counting, if_pos rfl,
        Script.dropWhile_of_split hrest]
      simp [Step.advances, Spot.using, Spot.enter]
  | _ => cases hx

/-! ### Pages -/

namespace Treadmill

/-- Iterations are broken off after the number is printed. -/
def broken : Stmt :=
  .forIn "x" none (some (.var "xs")) none
    [.mk (.echo (some (.property (.var "loop") (.var "index")))) .unknown,
      .mk (.ifThen (some (.var "x")) [.mk .continueLoop .unknown] none) .unknown]

/-- The record is used only if there was nothing to loop over. -/
def empty : Stmt :=
  .forIn "y" none (some (.var "ys")) none
    [.mk (.text "-") .unknown, .mk .forElse .unknown,
      .mk (.echo (some (.property (.var "loop") (.var "length")))) .unknown]

def tree : Template := [.mk broken .unknown, .mk empty .unknown]

def compiler (tree : Template) : Compiler :=
  { Compiler.initial with
    makeStem := some fun _ => "v"
    parse := fun _ _ => .ok tree }

theorem compiles :
    ∃ code, (exec ((compiler tree).compileSource "" "x" .page) .empty).1 = .ok (.code code) := by
  have hparse : (compiler tree).parse "" "x" = .ok tree := rfl
  have hsome :
      (Plain.nodes? ((compiler tree).site "x")
        (.outermost (compiler tree).options.autoescape) tree).isSome =
      true := by decide +kernel
  obtain ⟨code, hcode⟩ := Option.isSome_iff_exists.1 hsome
  exact ⟨code, ((compiler tree).compileSource_eq_ok_iff rfl hparse rfl).2 ⟨hcode, by decide⟩⟩

/-- The steps of the body in which iterations are broken off. -/
def body : List Step :=
  [.run [⟨.property (.var "loop") (.var "index"), 1, "$v1loop->index"⟩] "<?= $v1loop->index ?>",
    .branch [⟨.var "x", 1, "$x"⟩]
      (Code.ifOpen "$x") [.jump .next [] (Code.sect "continue;")] Code.close]

def head : Code.Loop := ⟨"v1", "$xs", "x", none, none, "", true, false⟩

end Treadmill

namespace Compiler

variable {c : Compiler} {d : Disk} {text source code : String} {tree : Template}

/-- **Which iterations are counted.** No extension is asked, and the template extends nothing
and compiles as a page. Its loops are those of the code, one by one. Where a loop keeps a
record, and opens a branch for nothing to loop over at most once and directly, an iteration
that reaches its end, or that the guard refuses, is counted once. But if the loop has such a
branch, this holds only if the record is used before it; otherwise it is not counted. An
iteration that is broken off, to go on with the next one or to leave the loop, is not counted. -/
theorem compileSource_counts (hext : c.extensions = []) (hparse : c.parse text source = .ok tree)
    (hnone : ∀ x ∈ Node.statements tree, x.isExtending = false)
    (hcode : (exec (c.compileSource text source .page) d).1 = .ok (.code code)) :
    ∃ script, Node.Scripted (c.site source).rules (.outermost c.options.autoescape) tree script ∧
      Script.text script = code ∧
      List.Forall₂ (fun x s => x.ownsRecord = true → x.ElseOnce → s.Counts x.counted)
        (Node.loops tree) (Script.loops script) := by
  obtain ⟨script, hscript, htext⟩ := page_scripted hext hparse hnone hcode
  exact ⟨script, hscript, htext, hscript.loops.imp fun x s h => h.counts⟩

/-- Iterations of the first loop are counted at their end, those of the second one never. -/
theorem compileSource_counts_treadmill :
    ∃ code script s₁ s₂,
      (exec ((Treadmill.compiler Treadmill.tree).compileSource "" "x" .page) .empty).1 =
        .ok (.code code) ∧
      Script.text script = code ∧ Script.loops script = [s₁, s₂] ∧ s₁.Counts true ∧
      s₂.Counts false := by
  obtain ⟨code, hcode⟩ := Treadmill.compiles
  have hnone : ∀ x ∈ Node.statements Treadmill.tree, x.isExtending = false := by decide +kernel
  obtain ⟨script, -, htext, hloops⟩ := compileSource_counts rfl rfl hnone hcode
  have htree : Node.loops Treadmill.tree = [Treadmill.broken, Treadmill.empty] := rfl
  rw [htree] at hloops
  have hbranch : Treadmill.empty.ElseOnce :=
    @Node.ElseOnce.once [.mk (.text "-") .unknown] _ _ rfl rfl
  generalize hscript : Script.loops script = loops at hloops
  cases hloops with
  | cons hbroken hrest =>
    cases hrest with
    | cons hempty hnil =>
      cases hnil
      exact ⟨code, script, _, _, hcode, htext, hscript, hbroken rfl (.never rfl),
        hempty rfl hbranch⟩

/-- An iteration that goes on with the next one behind the line that prints its number is not
counted. -/
theorem broken_off_not_counted :
    (exec ((Treadmill.compiler [.mk Treadmill.broken .unknown]).compileSource "" "x" .page)
      .empty).1 =
      .ok (.code (Script.text [.loop Treadmill.head 1 ⟨.var "xs", 1, "$xs"⟩ none Treadmill.body])) ∧
    Script.Runs (fun _ _ _ => False) "v1" (Script.iteration Treadmill.head Treadmill.body) .next 0 ∧
    Script.Runs (fun _ _ _ => False) "v1"
      (Script.iteration Treadmill.head Treadmill.body) .through 1 := by
  have hparse : (Treadmill.compiler [.mk Treadmill.broken .unknown]).parse "" "x" =
      .ok [.mk Treadmill.broken .unknown] :=
    rfl
  refine ⟨(compileSource_eq_ok_iff rfl hparse rfl).2 ⟨by decide +kernel, by decide⟩, ?_, ?_⟩
  · have harm :
        [.jump .next [] (Code.sect "continue;")] ∈
          Script.arms [.jump .next [] (Code.sect "continue;")] :=
      List.mem_cons_self
    exact .cons .run (.cons .run (.leave (.arm harm (.leave .jump nofun)) nofun))
  · exact .cons .run (.cons .run (.cons (.noArm rfl) (.cons .advance .nil)))

end Compiler
end Stencil
