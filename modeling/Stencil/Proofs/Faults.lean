/-
# Faults of a template

What keeps a template from compiling, in the order in which it is come upon: statements from left
to right, each with what is its own before its bodies, and of its own parts each in the order in
which they are emitted. Values come before targets, arguments before what is called, the operand
and the arguments of a filter before the filter. What an extension answers for has no faults at
all, and a filter is one only if nobody knows it: then no extension answers for it, given the code
of its arguments.

Key definitions: `Fault`, `Expr.faults`, `Stmt.faults`, `Node.visited`, `survey`.
Key theorems: `survey_append`, `survey_eq_ok_iff`, `survey_eq_error_iff`.
-/
import Stencil.Proofs.Success

namespace Stencil

/-- Something that keeps a template from compiling. -/
inductive Fault where
  | missing (part : Stmt.Part)
  | unknownStatement
  | unknownExpression
  | unknownFilter (name : String)
  | invalidFilter
  | duplicateMacro (name : String)
  | invalidStem
  deriving Repr, DecidableEq

/-- The error of a fault in a statement at a location. -/
def Fault.error (l : Location) : Fault → CompileError
  | .missing part => .corruptStatement part l
  | .unknownStatement => .unknownStatement l
  | .unknownExpression => .unknownExpression l
  | .unknownFilter name => .unknownFilter name l
  | .invalidFilter => .invalidFilter l
  | .duplicateMacro name => .duplicateMacro name l
  | .invalidStem => .invalidStem

/-- The location that an error carries. -/
def CompileError.location? : CompileError → Option Location
  | .corruptStatement _ l | .unknownStatement l | .unknownExpression l | .unknownFilter _ l
  | .invalidFilter l | .duplicateMacro _ l => some l
  | _ => none

/-- A location that an error carries is the one it is given. -/
theorem Fault.eq_of_location? {f : Fault} {l l' : Location} (h : (f.error l).location? = some l') :
    l' = l := by
  cases f with
  | invalidStem => cases h
  | _ => exact (Option.some.inj h).symm

/-! ### Faults of expressions -/

/-- A filter that does not join is built in exactly if it has code. -/
theorem Code.filter?_isSome {name : String} (h : name ≠ "join") (l arguments : String) :
    (filter? name l arguments).isSome = filterNames.contains name := by
  rw [filter?, filterNames, List.contains_cons, List.contains_cons]
  by_cases hdefault : name = "default"
  · simp [hdefault]
  · rw [if_neg hdefault, Option.isSome_map, Plain.lookup_filterFunctions]
    simp [beq_false_of_ne h, beq_false_of_ne hdefault]

namespace Compiler

/-- The code of an expression inside of so many loops, in a template in which no block is
overridden. -/
def codeAt (c : Compiler) (source : String) (depth : Nat) (e : Expr) : String :=
  (exec (Emit.expr (.inner c source fun path _ => throw (.endlessNesting path)) e)
    { Emit.State.initial false .empty with loopLevel := depth }).1.toOption.getD ""

/-- The code of each argument. -/
def argCodes (c : Compiler) (source : String) (depth : Nat) (as : List Arg) : List String :=
  as.map fun a => Emit.keyword a.name (c.codeAt source depth a.expr)

/-- The faults of an expression, unless an extension answers for it. -/
def unanswered (c : Compiler) (e : Expr) (faults : List Fault) : List Fault :=
  if (c.handled (·.expression e)).isSome then [] else faults

theorem unanswered_nil (c : Compiler) (e : Expr) : c.unanswered e [] = [] := ite_self []

/-- The stem of loop variables has to be an identifier. -/
def stemFaults (c : Compiler) (source : String) : List Fault :=
  if isIdentifier (c.stemFor source) then [] else [.invalidStem]

/-- The record of a loop is named after the stem. -/
def nameFaults (c : Compiler) (source : String) (depth : Nat) (name : String) : List Fault :=
  if name = "loop" ∧ 0 < depth then c.stemFaults source else []

/-- An extension answers for the filter, or it is registered or built in. -/
def knowsFilter (c : Compiler) (name arguments : String) (raw : List Arg) : Bool :=
  (c.handled (·.filter name arguments raw)).isSome || (c.filters.lookup name).isSome ||
    Code.filterNames.contains name

/-- A filter has to be known. -/
def filterFault (c : Compiler) (name arguments : String) (raw : List Arg) : List Fault :=
  if c.knowsFilter name arguments raw then [] else [.unknownFilter name]

/-- What a filter with arguments is given, after the operand `l`. -/
def filterGiven (c : Compiler) (source : String) (depth : Nat) (name l : String) (raw : List Arg) :
    String :=
  if name = "default" then if raw.isEmpty then l else Code.commas (c.argCodes source depth raw)
  else Code.commas ((c.handled (·.expression (.resolved l))).getD l :: c.argCodes source depth raw)

/-- The fault of a filter on the operand `l`, apart from those of its arguments. -/
def filterFaults (c : Compiler) (source : String) (depth : Nat) (l : String) : Expr → List Fault
  | .var name => c.filterFault name l (Emit.filterArgs name l [])
  | .call (.var name) raw =>
    c.filterFault name (c.filterGiven source depth name l raw) (Emit.filterArgs name l raw)
  | _ => [.invalidFilter]

/-- The faults of the object of an attribute. No extension is asked about a variable. -/
def objectFaults (c : Compiler) (source : String) (depth : Nat) (object : Expr)
    (faults : List Fault) : List Fault :=
  match object with
  | .var name => c.nameFaults source depth name
  | _ => faults

end Compiler

namespace Expr

mutual

/-- The faults of an expression, in the order in which they are come upon. -/
def faults (c : Compiler) (source : String) (depth : Nat) : Expr → List Fault
  | .var name => c.unanswered (.var name) (c.nameFaults source depth name)
  | .property o a => c.unanswered (.property o a)
    (c.objectFaults source depth o (o.faults c source depth) ++
      a.unlessName (a.faults c source depth))
  | .index o i => c.unanswered (.index o i) (o.faults c source depth ++ i.faults c source depth)
  | .binary op l r =>
    c.unanswered (.binary op l r) (l.faults c source depth ++ r.faults c source depth)
  | .unary op e => c.unanswered (.unary op e) (e.faults c source depth)
  | .call f as => c.unanswered (.call f as)
    (faultsArgs c source depth as ++ f.unlessName (f.faults c source depth))
  | .filter l f => c.unanswered (.filter l f)
    (l.faults c source depth ++ (f.faultsOperands c source depth ++
      c.filterFaults source depth (c.codeAt source depth l) f))
  | .is l t => c.unanswered (.is l t)
    (l.faults c source depth ++ t.ofTest (t.faultsOperands c source depth)
      (t.faults c source depth))
  | .isNot l t => c.unanswered (.isNot l t)
    (l.faults c source depth ++ t.ofTest (t.faultsOperands c source depth)
      (t.faults c source depth))
  | .ternary b y n => c.unanswered (.ternary b y n)
    (b.faults c source depth ++ (y.faults c source depth ++ n.faults c source depth))
  | .slice o s e => c.unanswered (.slice o s e)
    (o.faults c source depth ++ (faultsOption c source depth s ++ faultsOption c source depth e))
  | .array as => c.unanswered (.array as) (faultsArgs c source depth as)
  | .enclosed e => c.unanswered (.enclosed e) (e.faults c source depth)
  | .unknown => c.unanswered .unknown [.unknownExpression]
  | _ => []

/-- The faults of arguments, from left to right. -/
def faultsArgs (c : Compiler) (source : String) (depth : Nat) : List Arg → List Fault
  | [] => []
  | ⟨e, _⟩ :: rest => e.faults c source depth ++ faultsArgs c source depth rest

/-- The faults of the arguments of a call by name. -/
def faultsOperands (c : Compiler) (source : String) (depth : Nat) : Expr → List Fault
  | .call (.var _) as => faultsArgs c source depth as
  | _ => []

/-- The faults of an expression, if there is one. -/
def faultsOption (c : Compiler) (source : String) (depth : Nat) : Option Expr → List Fault
  | none => []
  | some e => e.faults c source depth

end

end Expr

/-! ### Faults of statements -/

/-- A part that a statement cannot do without has to be there. -/
def absent {α : Type} (part : Stmt.Part) (a : Option α) : List Fault :=
  if a.isSome then [] else [.missing part]

/-- The faults of an expression that has to be there. -/
def Expr.faultsNeeded (c : Compiler) (source : String) (depth : Nat) (part : Stmt.Part)
    (e : Option Expr) : List Fault :=
  absent part e ++ faultsOption c source depth e

/-- The faults of a statement itself, apart from its bodies, in the order in which they are come
upon. The names in `defined` are taken. -/
def Stmt.faults (c : Compiler) (source : String) (depth : Nat) (defined : List String) :
    Stmt → List Fault
  | .echo e | .switchOn e _ | .caseOf e | .evaluate e
  | .returning e => Expr.faultsNeeded c source depth .expr e
  | .ifThen condition _ _ | .elseIf condition =>
    Expr.faultsNeeded c source depth .condition condition
  | .forIn _ _ iterable guard _ =>
    absent .iterable iterable ++
      (c.stemFaults source ++ (Expr.faultsOption c source (depth + 1) iterable ++
      Expr.faultsOption c source (depth + 1) guard))
  | .assign as =>
    if as.isEmpty then [.missing .assignments]
    else as.flatMap fun a => Expr.faultsNeeded c source depth .value a.value ++
      a.target.faults c source depth
  | .including path params =>
    Expr.faultsNeeded c source depth .path path ++ Expr.faultsOption c source depth params
  | .macroDef name params _ =>
    (if name ∈ defined then [.duplicateMacro name] else []) ++
      params.flatMap fun p => Expr.faultsOption c source depth p.fallback
  | .autoescape enabled _ => absent .enabled enabled
  | .cached key lifetime _ =>
    Expr.faultsNeeded c source depth .key key ++ Expr.faultsOption c source depth lifetime
  | .unknown => [.unknownStatement]
  | .text _ | .caseDefault | .forElse | .block _ _ | .extending _ | .continueLoop | .breakLoop => []

/-- A statement that is compiled, its place and how many loops it is in. -/
structure Visit where
  depth : Nat
  stmt : Stmt
  pos : Position

mutual

/-- The statements in the bodies of a statement that are compiled. -/
def Stmt.visited (c : Compiler) (depth : Nat) : Stmt → List Visit
  | .ifThen _ body elseBody => Node.visited c depth body ++ Node.visitedOption c depth elseBody
  | .forIn _ _ _ _ body => Node.visited c (depth + 1) body
  | .switchOn _ body | .block _ body | .macroDef _ _ body | .autoescape _ body | .cached _ _ body =>
    Node.visited c depth body
  | _ => []

/-- The statements that are compiled, in order and however deep: all but those that an extension
answers for and those inside of them. -/
def Node.visited (c : Compiler) (depth : Nat) : List Node → List Visit
  | [] => []
  | .mk s pos :: rest =>
    (if (c.handled (·.statement (.mk s pos))).isSome then []
      else ⟨depth, s, pos⟩ :: Stmt.visited c depth s) ++
      Node.visited c depth rest

/-- The statements that are compiled of nodes, if there are any. -/
def Node.visitedOption (c : Compiler) (depth : Nat) : Option (List Node) → List Visit
  | none => []
  | some ns => Node.visited c depth ns

end

/-! ### The first fault -/

/-- The names of the macros that statements define. -/
def Visit.names (vs : List Visit) : List String := vs.filterMap (·.stmt.macroName?)

/-- The faults of a statement itself. -/
def Visit.faults (c : Compiler) (source : String) (defined : List String) (v : Visit) :
    List Fault :=
  v.stmt.faults c source v.depth defined

/-- The first of some faults at a place, if there is one. -/
def firstAt (pos : Position) (fs : List Fault) (defined : List String) :
    Except (Position × Fault) (List String) :=
  match fs with
  | f :: _ => .error (pos, f)
  | [] => .ok defined

/-- Look at the faults of a statement, and note the name it defines if there are none. -/
def Visit.look (c : Compiler) (source : String) (defined : List String) (v : Visit) :
    Except (Position × Fault) (List String) :=
  firstAt v.pos (v.faults c source defined) (defined ++ v.stmt.macroName?.toList)

/-- Go through statements up to the first fault. -/
def survey (c : Compiler) (source : String) (vs : List Visit) (defined : List String) :
    Except (Position × Fault) (List String) := vs.foldlM (Visit.look c source) defined

section
variable {c : Compiler} {source : String}

@[simp] theorem survey_nil (defined : List String) : survey c source [] defined = .ok defined := rfl

@[simp] theorem survey_cons (v : Visit) (vs : List Visit) (defined : List String) :
    survey c source (v :: vs) defined = v.look c source defined >>= survey c source vs :=
  List.foldlM_cons

theorem survey_append (vs ws : List Visit) (defined : List String) :
    survey c source (vs ++ ws) defined = survey c source vs defined >>= survey c source ws :=
  List.foldlM_append

theorem look_eq_ok_iff {v : Visit} {defined defined' : List String} :
    v.look c source defined = .ok defined' ↔
      v.faults c source defined = [] ∧ defined' = defined ++ v.stmt.macroName?.toList := by
  unfold Visit.look firstAt
  cases v.faults c source defined <;> simp [eq_comm]

theorem look_eq_error_iff {v : Visit} {defined : List String} {p : Position} {f : Fault} :
    v.look c source defined = .error (p, f) ↔
      p = v.pos ∧ (v.faults c source defined).head? = some f := by
  unfold Visit.look firstAt
  cases v.faults c source defined <;> simp [eq_comm]

/-- The ways to split a list are to split it before its first entry, and to split what is behind
that. -/
theorem forall_split_cons {α : Type} {P : List α → α → Prop} {x : α} {xs : List α} :
    (∀ before y after, x :: xs = before ++ y :: after → P before y) ↔
      P [] x ∧ ∀ before y after, xs = before ++ y :: after → P (x :: before) y := by
  constructor
  · intro h
    exact ⟨h [] x xs rfl, fun before y after hxs => h (x :: before) y after (congrArg (x :: ·) hxs)⟩
  · rintro ⟨hfirst, hrest⟩ before y after hxs
    rcases List.cons_eq_append_iff.1 hxs with ⟨rfl, hcons⟩ | ⟨before', rfl, hxs'⟩
    · obtain ⟨rfl, -⟩ := List.cons.inj hcons
      exact hfirst
    · exact hrest before' y after hxs'

theorem Visit.names_cons (v : Visit) (vs : List Visit) :
    names (v :: vs) = v.stmt.macroName?.toList ++ names vs := by
  unfold names
  rw [List.filterMap_cons]
  cases v.stmt.macroName? <;> rfl

/-- There is no fault exactly if each statement has none, given the names defined before it. -/
theorem survey_eq_ok_iff {vs : List Visit} {defined defined' : List String} :
    survey c source vs defined = .ok defined' ↔
      (∀ before v after, vs = before ++ v :: after →
        v.faults c source (defined ++ Visit.names before) = []) ∧
        defined' = defined ++ Visit.names vs := by
  induction vs generalizing defined with
  | nil =>
    have hnames : defined ++ Visit.names [] = defined := List.append_nil defined
    rw [survey_nil, Except.ok.injEq, hnames, eq_comm]
    exact ⟨fun h => ⟨fun before v after hnil => by simp at hnil, h⟩, fun h => h.2⟩
  | cons v vs ih =>
    have hnil : defined ++ Visit.names [] = defined := List.append_nil defined
    rw [survey_cons, forall_split_cons, hnil]
    cases hlook : v.look c source defined with
    | error x =>
      refine ⟨fun h => (by cases h), fun h => ?_⟩
      rw [look_eq_ok_iff.2 ⟨h.1.1, rfl⟩] at hlook
      cases hlook
    | ok d =>
      -- the rest is surveyed with the name of this statement among those that are defined
      obtain ⟨hv, rfl⟩ := look_eq_ok_iff.1 hlook
      refine ih.trans ?_
      simp only [Visit.names_cons, List.append_assoc, hv, true_and]

/-- A survey ends with a fault exactly if it comes to a statement that has it. -/
theorem survey_eq_error_iff_look {vs : List Visit} {defined : List String} {x : Position × Fault} :
    survey c source vs defined = .error x ↔
      ∃ before v after defined', vs = before ++ v :: after ∧
      survey c source before defined = .ok defined' ∧
        v.look c source defined' = .error x := by
  constructor
  · intro h
    induction vs generalizing defined with
    | nil => cases h
    | cons v vs ih =>
      rw [survey_cons] at h
      cases hlook : v.look c source defined with
      | error y =>
        rw [hlook] at h
        cases h
        exact ⟨[], v, vs, defined, rfl, rfl, hlook⟩
      | ok d =>
        rw [hlook] at h
        obtain ⟨before, w, after, d', hvs, hbefore, hw⟩ := ih h
        refine ⟨v :: before, w, after, d', congrArg (v :: ·) hvs, ?_, hw⟩
        rw [survey_cons, hlook]
        exact hbefore
  · rintro ⟨before, v, after, d', rfl, hbefore, hv⟩
    rw [survey_append, hbefore]
    show survey c source (v :: after) d' = .error x
    rw [survey_cons, hv]
    rfl

/-- There is a first fault exactly if it is the first one of a statement, and no statement before
has any. -/
theorem survey_eq_error_iff {vs : List Visit} {p : Position} {f : Fault} :
    survey c source vs [] = .error (p, f) ↔
      ∃ before v after, vs = before ++ v :: after ∧ p = v.pos ∧
        (∀ b w a, before = b ++ w :: a → w.faults c source (Visit.names b) = []) ∧
        (v.faults c source (Visit.names before)).head? = some f := by
  rw [survey_eq_error_iff_look]
  constructor
  · rintro ⟨before, v, after, d, hvs, hbefore, hlook⟩
    obtain ⟨hclear, rfl⟩ := survey_eq_ok_iff.1 hbefore
    obtain ⟨hp, hf⟩ := look_eq_error_iff.1 hlook
    exact ⟨before, v, after, hvs, hp, hclear, hf⟩
  · rintro ⟨before, v, after, hvs, hp, hclear, hf⟩
    exact ⟨before, v, after, Visit.names before, hvs, survey_eq_ok_iff.2 ⟨hclear, rfl⟩,
      look_eq_error_iff.2 ⟨hp, hf⟩⟩

end

end Stencil
