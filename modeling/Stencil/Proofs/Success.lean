/-
# Which templates compile

A template without other templates in it compiles under a compiler with nothing
registered exactly when nothing in it is unknown, no field that is needed is
missing, its filters are built in and no macro is defined twice. Which parts of an
expression count is decided by where code is generated for them: the names of
attributes, functions, filters and built-in tests are copied or looked up, and are
not expressions of their own.

Key definitions: `Expr.proper`, `Stmt.complete`, `Template.Compilable`.
Key theorems: `Plain.expr?_isSome`, `Plain.nodes?_isSome`, `Compiler.compileSource_succeeds_iff`.
-/
import Stencil.Proofs.Balanced

namespace Stencil

/-! ### What can be emitted -/

/-- The names of the built-in filters. -/
def Code.filterNames : List String := "default" :: "join" :: filterFunctions.map (·.1)

namespace Expr

/-- The name of the filter that an expression to the right of a bar stands for. -/
def filterName? : Expr → Option String
  | .var name => some name
  | .call (.var name) _ => some name
  | _ => none

theorem ofFilter_emittedOperands {f : Expr} {name : String} (h : f.filterName? = some name) :
    f.ofFilter f.emittedOperands = f.emittedOperands := by
  unfold filterName? at h
  split at h
  · rfl
  · rfl
  · cases h

/-- An expression nobody knows. -/
@[simp] def isUnknown : Expr → Bool
  | .unknown => true
  | _ => false

/-- If the expression is a filter, it is a built-in one. -/
@[simp] def filtersByName : Expr → Bool
  | .filter _ f => f.filterName?.any (Code.filterNames.contains ·)
  | _ => true

/-- The expression is known, and built in if it is a filter. -/
def proper (e : Expr) : Bool := !e.isUnknown && e.filtersByName

/-- All that code is generated for is proper. -/
def compilable (e : Expr) : Bool := e.emitted.all proper

end Expr

namespace Stmt

/-- A statement nobody knows. -/
@[simp] def isUnknown : Stmt → Bool
  | .unknown => true
  | _ => false

/-- No field that is needed is missing. -/
@[simp] def complete : Stmt → Bool
  | .echo e | .evaluate e | .returning e | .caseOf e | .switchOn e _ => e.isSome
  | .ifThen condition _ _ | .elseIf condition => condition.isSome
  | .forIn _ _ iterable _ _ => iterable.isSome
  | .including path _ => path.isSome
  | .autoescape enabled _ => enabled.isSome
  | .cached key _ _ => key.isSome
  | .assign as => !as.isEmpty && as.all (·.value.isSome)
  | _ => true

/-- The statement brings another template in when it is compiled. -/
@[simp] def isLinked : Stmt → Bool
  | .extending _ => true
  | .including (some (.str _)) none => true
  | _ => false

/-- The statement itself, apart from its bodies, does not keep a page from compiling. -/
def compilable (s : Stmt) : Bool :=
  !s.isLinked && !s.isUnknown && s.complete && s.exprs.all Expr.compilable

theorem link?_of_isLinked {s : Stmt} (h : s.isLinked = false) : s.link? = none := by
  unfold link?
  split <;> first | rfl | cases h

theorem isExtending_of_isLinked {s : Stmt} (h : s.isLinked = false) : s.isExtending = false := by
  cases s with
  | extending path => cases h
  | _ => rfl

end Stmt

/-- What a template has to satisfy to compile as a page. -/
structure Template.Compilable (tree : Template) : Prop where
  /-- Statements are known, -/
  known : ∀ s ∈ Node.statements tree, s.isUnknown = false
  /-- have all fields they need, -/
  complete : ∀ s ∈ Node.statements tree, s.complete = true
  /-- and hold known expressions, -/
  expressions :
    ∀ s ∈ Node.statements tree, ∀ e ∈ s.exprs, ∀ x ∈ e.emitted, x.isUnknown = false
  /-- with built-in filters only. -/
  filters :
    ∀ s ∈ Node.statements tree, ∀ e ∈ s.exprs, ∀ x ∈ e.emitted, x.filtersByName = true
  /-- No macro is defined twice. -/
  macros : (Node.macroNames tree).Nodup

instance (tree : Template) : Decidable (Template.Compilable tree) :=
  decidable_of_iff
    ((∀ s ∈ Node.statements tree, s.isUnknown = false) ∧
      (∀ s ∈ Node.statements tree, s.complete = true) ∧
      (∀ s ∈ Node.statements tree, ∀ e ∈ s.exprs, ∀ x ∈ e.emitted, x.isUnknown = false) ∧
      (∀ s ∈ Node.statements tree, ∀ e ∈ s.exprs, ∀ x ∈ e.emitted, x.filtersByName = true) ∧
      (Node.macroNames tree).Nodup)
    ⟨fun ⟨known, complete, expressions, filters, macros⟩ =>
        ⟨known, complete, expressions, filters, macros⟩,
      fun h => ⟨h.known, h.complete, h.expressions, h.filters, h.macros⟩⟩

theorem Template.compilable_iff {tree : Template}
    (h : ∀ s ∈ Node.statements tree, s.isLinked = false) :
    Compilable tree ↔
      (Node.statements tree).all Stmt.compilable = true ∧ (Node.macroNames tree).Nodup := by
  simp only [List.all_eq_true, Stmt.compilable, Expr.compilable, Expr.proper, Bool.and_eq_true,
    Bool.not_eq_true']
  constructor
  · intro hc
    exact ⟨fun s hs => ⟨⟨⟨h s hs, hc.known s hs⟩, hc.complete s hs⟩, fun e he x hx =>
      ⟨hc.expressions s hs e he x hx, hc.filters s hs e he x hx⟩⟩, hc.macros⟩
  · rintro ⟨hs, hm⟩
    exact ⟨fun s h => (hs s h).1.1.2, fun s h => (hs s h).1.2,
      fun s h e he x hx => ((hs s h).2 e he x hx).1,
      fun s h e he x hx => ((hs s h).2 e he x hx).2, hm⟩

namespace Plain

theorem isSome_bind {α β : Type} {x : Option α} {f : α → Option β} {b : Bool}
    (h : ∀ a, (f a).isSome = b) : (x >>= f).isSome = (x.isSome && b) := by
  cases x with
  | none => rfl
  | some a => simpa using h a

theorem isSome_bind_pure {α β : Type} (x : Option α) (f : α → β) :
    (x >>= fun a => pure (f a)).isSome = x.isSome := by cases x <;> rfl

/-! ### Expressions -/

theorem identifier?_isSome {S : Site} (hstem : S.stem?.isSome = true) (depth : Nat)
    (name : String) : (identifier? S depth name).isSome = true := by
  unfold identifier?
  split
  · rw [Option.isSome_map, hstem]
  · split <;> rfl

/-- A filter that applies a function is known by its name. -/
theorem lookup_filterFunctions (name : String) :
    (Code.filterFunctions.lookup name).isSome = (Code.filterFunctions.map (·.1)).contains name := by
  rw [Bool.eq_iff_iff, List.lookup_isSome_iff, List.contains_iff_mem, List.mem_map]
  exact exists_congr fun p => and_congr_right fun _ => beq_iff_eq.trans eq_comm

section
variable {S : Site} {p : Expr → Bool} {parts operands : List Expr}

theorem attrCode?_isSome (attr : Expr) {code : Option String} (h : code.isSome = parts.all p) :
    (attrCode? attr code).isSome = (attr.unlessName parts).all p := by
  cases attr with
  | var name => rfl
  | _ => exact h

theorem callCode?_isSome (hfunctions : S.functions = []) (callee : Expr) (arguments : String)
    (raw : List Arg) {code : Option String} (h : code.isSome = parts.all p) :
    (callCode? S callee arguments raw code).isSome = (callee.unlessName parts).all p := by
  cases callee with
  | var name => simp [callCode?, callNamed?, hfunctions, Expr.unlessName]
  | _ => exact Option.isSome_map.trans h

theorem testCode?_isSome (test : Expr) (l : String) {given : Option (List String)}
    {whole : Option String} (hgiven : given.isSome = operands.all p)
    (hwhole : whole.isSome = parts.all p) :
    (testCode? test l given whole).isSome = (test.ofTest operands parts).all p := by
  cases test with
  | var name =>
    have hname := Code.test?_isSome name l
    simp only [testCode?, Expr.ofTest]
    cases ht : Code.test? name l with
    | some code =>
      rw [ht] at hname
      rw [if_pos (of_decide_eq_true hname.symm)]
      rfl
    | none =>
      rw [ht] at hname
      rw [if_neg (of_decide_eq_false hname.symm)]
      exact Option.isSome_map.trans hwhole
  | call c raw =>
    cases c with
    | var name =>
      simp only [testCode?, Expr.ofTest]
      split
      · exact Option.isSome_map.trans hgiven
      · exact Option.isSome_map.trans hwhole
    | _ => exact Option.isSome_map.trans hwhole
  | _ => exact Option.isSome_map.trans hwhole

theorem filterNamed?_isSome (hfilters : S.filters = []) (name l arguments : String) (raw : List Arg)
    {glue : Option String} (hglue : glue.isSome = true) :
    (filterNamed? S name l arguments raw glue).isSome = Code.filterNames.contains name := by
  simp only [filterNamed?, hfilters, List.lookup_nil, Code.filterNames, List.contains_cons]
  by_cases hjoin : name = "join"
  · simp [hjoin, hglue]
  · rw [if_neg hjoin, Code.filter?]
    by_cases hdefault : name = "default"
    · simp [hdefault]
    · rw [if_neg hdefault, Option.isSome_map, lookup_filterFunctions]
      simp [beq_false_of_ne hjoin, beq_false_of_ne hdefault]

/-- What joins is the first of the arguments. -/
theorem glue?_isSome (depth : Nat) {f : Expr} (h : (operands? S depth f).isSome = true) :
    (glue? S depth f).isSome = true := by
  unfold glue?
  split
  · rename_i e name rest
    rw [operands?, args?, isSome_bind fun _ => isSome_bind_pure _ _] at h
    exact (Bool.and_eq_true_iff.1 h).1
  · rfl

/-- A filter has code if it is built in and its arguments have. -/
theorem filterCode?_isSome (hfilters : S.filters = []) (depth : Nat) (f : Expr) (l : String) :
    (filterCode? S f l (operands? S depth f) (glue? S depth f)).isSome =
      (f.filterName?.any (Code.filterNames.contains ·) && (operands? S depth f).isSome) := by
  cases f with
  | var name =>
    rw [filterCode?, filterNamed?_isSome hfilters _ _ _ _ rfl]
    simp [Expr.filterName?, operands?]
  | call c raw =>
    cases c with
    | var name =>
      have hglue := glue?_isSome (S := S) (f := .call (.var name) raw) depth
      rw [filterCode?]
      cases hop : operands? S depth (.call (.var name) raw) with
      | none => simp
      | some rest =>
        rw [hop] at hglue
        simpa [Expr.filterName?] using filterNamed?_isSome hfilters name l _ _ (hglue rfl)
    | _ => rfl
  | _ => rfl

end

section
variable {S : Site}

mutual

/-- An expression has code exactly when all that code is generated for is proper. -/
theorem expr?_isSome (hS : S.Standard) (hstem : S.stem?.isSome = true) (depth : Nat) :
    ∀ e : Expr, (expr? S depth e).isSome = e.emitted.all Expr.proper
  | .integer _ | .double _ | .str _ | .bool _ | .null | .resolved _ | .unknown => rfl
  | .var name => identifier?_isSome hstem depth name
  | .property o a => by
    have ha := attrCode?_isSome a (expr?_isSome hS hstem depth a)
    rw [expr?, isSome_bind fun _ => (isSome_bind_pure _ _).trans ha, expr?_isSome hS hstem depth o]
    simp [Expr.emitted, Expr.proper]
  | .index o i => by
    rw [expr?, isSome_bind fun _ => isSome_bind_pure _ _, expr?_isSome hS hstem depth o,
      expr?_isSome hS hstem depth i]
    simp [Expr.emitted, Expr.proper]
  | .binary op l r => by
    rw [expr?, isSome_bind fun _ => isSome_bind_pure _ _, expr?_isSome hS hstem depth l,
      expr?_isSome hS hstem depth r]
    simp [Expr.emitted, Expr.proper]
  | .unary op e => by
    rw [expr?, isSome_bind_pure, expr?_isSome hS hstem depth e]
    simp [Expr.emitted, Expr.proper]
  | .call c as => by
    have hc := fun given => callCode?_isSome hS.functions c given as (expr?_isSome hS hstem depth c)
    rw [expr?, isSome_bind fun _ => hc _, args?_isSome hS hstem depth as]
    simp [Expr.emitted, Expr.proper]
  | .filter l f => by
    rw [expr?, isSome_bind fun _ => filterCode?_isSome hS.filters depth f _,
      expr?_isSome hS hstem depth l, operands?_isSome hS hstem depth f]
    cases hname : f.filterName? with
    | none => simp [Expr.emitted, Expr.proper, hname]
    | some name =>
      simp [Expr.emitted, Expr.proper, Expr.ofFilter_emittedOperands hname, hname, Bool.and_left_comm]
  | .is l t => by
    have ht := fun given => testCode?_isSome t given (operands?_isSome hS hstem depth t)
      (expr?_isSome hS hstem depth t)
    rw [expr?, isSome_bind ht, expr?_isSome hS hstem depth l]
    simp [Expr.emitted, Expr.proper]
  | .isNot l t => by
    have ht := fun given => testCode?_isSome t given (operands?_isSome hS hstem depth t)
      (expr?_isSome hS hstem depth t)
    rw [expr?, isSome_bind fun _ => (isSome_bind_pure _ _).trans (ht _),
      expr?_isSome hS hstem depth l]
    simp [Expr.emitted, Expr.proper]
  | .ternary c y n => by
    rw [expr?, isSome_bind fun _ => isSome_bind fun _ => isSome_bind_pure _ _,
      expr?_isSome hS hstem depth c, expr?_isSome hS hstem depth y, expr?_isSome hS hstem depth n]
    simp [Expr.emitted, Expr.proper]
  | .slice o s e => by
    rw [expr?, isSome_bind fun _ => isSome_bind fun _ => isSome_bind_pure _ _,
      expr?_isSome hS hstem depth o, exprOrNull?_isSome hS hstem depth s,
      exprOrNull?_isSome hS hstem depth e]
    simp [Expr.emitted, Expr.proper]
  | .array as => by
    rw [expr?, isSome_bind_pure, args?_isSome hS hstem depth as]
    simp [Expr.emitted, Expr.proper]
  | .enclosed e => by
    rw [expr?, isSome_bind_pure, expr?_isSome hS hstem depth e]
    simp [Expr.emitted, Expr.proper]

theorem args?_isSome (hS : S.Standard) (hstem : S.stem?.isSome = true) (depth : Nat) :
    ∀ as : List Arg, (args? S depth as).isSome = (Expr.emittedArgs as).all Expr.proper
  | [] => rfl
  | ⟨e, _⟩ :: rest => by
    rw [args?, isSome_bind fun _ => isSome_bind_pure _ _, expr?_isSome hS hstem depth e,
      args?_isSome hS hstem depth rest, Expr.emittedArgs, List.all_append]

theorem operands?_isSome (hS : S.Standard) (hstem : S.stem?.isSome = true) (depth : Nat) :
    ∀ e : Expr, (operands? S depth e).isSome = e.emittedOperands.all Expr.proper
  | .call _ as => args?_isSome hS hstem depth as
  | .integer _ | .double _ | .str _ | .bool _ | .null | .var _ | .property .. | .index ..
  | .binary .. | .unary .. | .filter .. | .is .. | .isNot .. | .ternary .. | .slice .. | .array _
  | .enclosed _ | .resolved _ | .unknown => rfl

theorem exprOrNull?_isSome (hS : S.Standard) (hstem : S.stem?.isSome = true) (depth : Nat) :
    ∀ e : Option Expr, (exprOrNull? S depth e).isSome = (Expr.emittedOption e).all Expr.proper
  | none => rfl
  | some e => expr?_isSome hS hstem depth e

end

/-! ### Statements -/

variable (hS : S.Standard) (hstem : S.stem?.isSome = true)
include hS hstem

/-- What starts with the code of an expression that has to be there. -/
theorem required_isSome {α : Type} {depth : Nat} {f : String → Option α} {b : Bool}
    (h : ∀ code, (f code).isSome = b) (e : Option Expr) :
    (e >>= fun e => expr? S depth e >>= f).isSome =
      (e.isSome && e.toList.all Expr.compilable && b) := by
  cases e with
  | none => rfl
  | some e =>
    have he : (expr? S depth e >>= f).isSome = (e.compilable && b) := by
      rw [isSome_bind h, expr?_isSome hS hstem depth e, Expr.compilable]
    simpa using he

theorem optional?_isSome (depth : Nat) (e : Option Expr) :
    (optional? S depth e).isSome = e.toList.all Expr.compilable := by
  cases e with
  | none => rfl
  | some e => simp [optional?, expr?_isSome hS hstem depth e, Expr.compilable]

theorem echo?_isSome (k : Spot) (e : Option Expr) :
    (e >>= echo? S k).isSome = (e.isSome && e.toList.all Expr.compilable) := by
  cases e with
  | none => rfl
  | some e => simp [echo?, expr?_isSome hS hstem k.depth e, Expr.compilable]

theorem assignments?_isSome (depth : Nat) (as : List Assignment) :
    (assignments? S depth as).isSome = (as.all (·.value.isSome) &&
      (as.flatMap fun a => a.target :: a.value.toList).all Expr.compilable) := by
  induction as with
  | nil => rfl
  | cons a rest ih =>
    have htarget : (expr? S depth a.target).isSome = a.target.compilable :=
      expr?_isSome hS hstem depth a.target
    have hcons : (assignments? S depth (a :: rest)).isSome =
        (a.value.isSome && a.value.toList.all Expr.compilable &&
          (a.target.compilable && (assignments? S depth rest).isSome)) :=
      required_isSome hS hstem (fun _ => by
        rw [isSome_bind fun _ => isSome_bind_pure _ _, htarget]) a.value
    rw [hcons, ih, List.all_cons, List.flatMap_cons, List.all_append, List.all_cons]
    ac_rfl

theorem parameters?_isSome (depth : Nat) (name : String) (ps : List Parameter) (i : Nat) :
    (parameters? S depth name i ps).isSome =
      (ps.flatMap fun p => p.fallback.toList).all Expr.compilable := by
  induction ps generalizing i with
  | nil => rfl
  | cons p rest ih =>
    rw [parameters?, List.flatMap_cons, List.all_append, ← ih (i + 1)]
    cases p.fallback with
    | none => exact isSome_bind_pure _ _
    | some e =>
      dsimp only
      rw [isSome_bind fun _ => isSome_bind_pure _ _]
      simp [expr?_isSome hS hstem depth e, Expr.compilable]

theorem include?_isSome (depth : Nat) (path params : Option Expr) :
    (include? S depth path params).isSome = (Stmt.including path params).compilable := by
  have hcode : ∀ e, (expr? S depth e).isSome = e.compilable := expr?_isSome hS hstem depth
  cases path with
  | none => cases params <;> rfl
  | some path =>
    cases params with
    | none =>
      -- A literal path is the one that is not left to the view.
      cases hpath : (Stmt.including (some path) none).isLinked with
      | true =>
        cases path with
        | str _ => rfl
        | _ => cases hpath
      | false =>
        have hview : include? S depth (some path) none = expr? S depth path >>= fun p =>
            pure (Code.sect (Code.apply "$this->partial" p ++ ";")) := by
          cases path with
          | str _ => cases hpath
          | _ => rfl
        rw [hview, isSome_bind_pure, hcode]
        rw [Stmt.compilable, hpath]
        simp [Stmt.exprs]
    | some params =>
      have hview : include? S depth (some path) (some params) = expr? S depth path >>= fun p =>
          expr? S depth params >>= fun q =>
            pure (Code.sect (Code.apply "$this->partial" (Code.commas [p, q]) ++ ";")) := by
        cases path <;> rfl
      rw [hview, isSome_bind fun _ => isSome_bind_pure _ _, hcode, hcode]
      simp [Stmt.compilable, Stmt.exprs]

end

section
variable {S : Site}

mutual

/-- A statement has code exactly when none in it keeps it from compiling. -/
theorem stmt?_isSome (hS : S.Standard) (hstem : S.stem?.isSome = true) :
    ∀ (s : Stmt) (k : Spot), (stmt? S k s).isSome = s.statements.all Stmt.compilable
  | .text _, _ | .caseDefault, _ | .forElse, _ | .continueLoop, _ | .breakLoop, _ | .extending _, _
  | .unknown, _ => rfl
  | .echo e, k => by
    rw [stmt?, echo?_isSome hS hstem]
    simp [Stmt.statements, Stmt.compilable, Stmt.exprs]
  | .ifThen c b e, k => by
    have hbody := nodes?_isSome hS hstem b
    have helse := elseCode?_isSome hS hstem e
    rw [stmt?, required_isSome hS hstem fun _ =>
      (isSome_bind fun _ => (isSome_bind_pure _ _).trans (helse _)).trans (by rw [hbody])]
    simp [Stmt.statements, Stmt.compilable, Stmt.exprs, Bool.and_assoc]
  | .elseIf c, k => by
    rw [stmt?, required_isSome hS hstem (b := true) fun _ => rfl]
    simp [Stmt.statements, Stmt.compilable, Stmt.exprs]
  | .switchOn e b, k => by
    have hbody := nodes?_isSome hS hstem b
    rw [stmt?, required_isSome hS hstem fun _ => (isSome_bind_pure _ _).trans (hbody _)]
    simp [Stmt.statements, Stmt.compilable, Stmt.exprs, Bool.and_assoc]
  | .caseOf e, k => by
    rw [stmt?, required_isSome hS hstem (b := true) fun _ => rfl]
    simp [Stmt.statements, Stmt.compilable, Stmt.exprs]
  | .forIn t key i g b, k => by
    have hbody := nodes?_isSome hS hstem b
    obtain ⟨stem, hsome⟩ := Option.isSome_iff_exists.1 hstem
    have hloop : stmt? S k (.forIn t key i g b) = i >>= fun e =>
        expr? S (k.depth + 1) e >>= fun source =>
        optional? S (k.depth + 1) g >>= fun guard =>
          nodes? S ((k.enter (stem ++ toString (k.depth + 1)) g.isSome (b.any Node.isForElse)).using
            (Expr.usesLoopOption g)) b >>= fun code =>
          pure (Code.Loop.code ⟨stem ++ toString (k.depth + 1), source, t, key, guard, code,
            Expr.usesLoopOption g || Node.usesLoop b, b.any Node.isForElse⟩) := by
      rw [stmt?, hsome]
      rfl
    have hinside := optional?_isSome hS hstem (k.depth + 1) g
    rw [hloop, required_isSome hS hstem fun _ =>
      (isSome_bind fun _ => (isSome_bind_pure _ _).trans (hbody _)).trans (by rw [hinside])]
    simp [Stmt.statements, Stmt.compilable, Stmt.exprs, Bool.and_assoc]
  | .assign as, k => by
    rw [stmt?]
    cases as with
    | nil => rfl
    | cons a rest =>
      rw [if_neg (by simp), Option.isSome_map, assignments?_isSome hS hstem]
      simp [Stmt.statements, Stmt.compilable, Stmt.exprs]
  | .block n b, k => by
    rw [stmt?, nodes?_isSome hS hstem b]
    simp [Stmt.statements, Stmt.compilable, Stmt.exprs]
  | .including p a, k => by
    rw [stmt?, include?_isSome hS hstem]
    simp [Stmt.statements]
  | .macroDef n ps b, k => by
    have hbody := nodes?_isSome hS hstem b
    rw [stmt?, isSome_bind fun _ => (isSome_bind_pure _ _).trans (hbody _),
      parameters?_isSome hS hstem]
    simp [Stmt.statements, Stmt.compilable, Stmt.exprs]
  | .evaluate e, k => by
    rw [stmt?, required_isSome hS hstem (b := true) fun _ => rfl]
    simp [Stmt.statements, Stmt.compilable, Stmt.exprs]
  | .returning e, k => by
    rw [stmt?, required_isSome hS hstem (b := true) fun _ => rfl]
    simp [Stmt.statements, Stmt.compilable, Stmt.exprs]
  | .autoescape e b, k => by
    have hbody := nodes?_isSome hS hstem b
    rw [stmt?, isSome_bind fun _ => hbody _]
    simp [Stmt.statements, Stmt.compilable, Stmt.exprs]
  | .cached key l b, k => by
    have hbody := nodes?_isSome hS hstem b
    have hlife := optional?_isSome hS hstem k.depth l
    rw [stmt?, required_isSome hS hstem fun _ =>
      (isSome_bind fun _ => (isSome_bind_pure _ _).trans (hbody _)).trans (by rw [hlife])]
    simp [Stmt.statements, Stmt.compilable, Stmt.exprs, Bool.and_assoc]

theorem elseCode?_isSome (hS : S.Standard) (hstem : S.stem?.isSome = true) :
    ∀ (ns : Option (List Node)) (k : Spot),
      (elseCode? S k ns).isSome = (Node.statementsOption ns).all Stmt.compilable
  | none, _ => rfl
  | some ns, k => by
    rw [elseCode?, isSome_bind_pure, nodes?_isSome hS hstem ns, Node.statementsOption]

/-- Nodes have code exactly when no statement in them keeps them from compiling. -/
theorem nodes?_isSome (hS : S.Standard) (hstem : S.stem?.isSome = true) :
    ∀ (ns : List Node) (k : Spot), (nodes? S k ns).isSome = (Node.statements ns).all Stmt.compilable
  | [], _ => rfl
  | .mk s _ :: rest, k => by
    have hrest := nodes?_isSome hS hstem rest
    rw [nodes?, isSome_bind fun _ => (isSome_bind_pure _ _).trans (hrest _),
      stmt?_isSome hS hstem s, Node.statements, List.all_append]

end
end
end Plain

namespace Compiler

theorem isIdentifier_digits (n : Nat) : isIdentifier ("v" ++ toString n) = true := by
  have hlist : ("v" ++ toString n).toList = 'v' :: Nat.toDigits 10 n := by
    simp
  unfold isIdentifier
  rw [hlist]
  refine Bool.and_eq_true_iff.2 ⟨rfl, List.all_eq_true.2 fun d hd => ?_⟩
  have hdigit : d.isDigit = true := Nat.isDigit_of_mem_toDigits (by decide) (by decide) hd
  simp [Char.isAlphanum, hdigit]

/-- The stem made from the path of a template is an identifier. -/
theorem site_stem?_isSome {c : Compiler} (h : c.makeStem = none) (source : String) :
    (c.site source).stem?.isSome = true := by
  have hident : isIdentifier (c.stemFor source) = true := by
    rw [stemFor, h]
    exact isIdentifier_digits _
  simp [site, hident]

end Compiler

/-- **Which pages compile.** Nothing is registered, and no other template is brought
in. Then a template compiles as a page exactly when its statements are known and have
the fields they need, what code is generated for in their expressions is known, their
filters are built in, and no macro is defined twice. -/
theorem Compiler.compileSource_succeeds_iff {c : Compiler} {text source : String} {tree : Template}
    (d : Disk) (hext : c.extensions = []) (hfunctions : c.functions = [])
    (hfilters : c.filters = []) (hstem : c.makeStem = none) (hparse : c.parse text source = .ok tree)
    (hlinked : ∀ s ∈ Node.statements tree, s.isLinked = false) :
    (∃ out, (exec (c.compileSource text source .page) d).1 = .ok out) ↔
      Template.Compilable tree := by
  have hlinks : Node.links tree = [] :=
    List.filterMap_eq_nil_iff.2 fun s hs => Stmt.link?_of_isLinked (hlinked s hs)
  have hcode := Plain.nodes?_isSome (site_standard hfunctions hfilters source)
    (site_stem?_isSome hstem source) tree (.outermost c.options.autoescape)
  rw [Template.compilable_iff hlinked, ← hcode, Option.isSome_iff_exists]
  constructor
  · rintro ⟨out, hout⟩
    rw [exec_compileSource_page hparse] at hout
    cases hpage : c.pageOf source d tree with
    | error e => simp [hpage, Except.map] at hout
    | ok code =>
      obtain ⟨hplain, hnodup⟩ := (pageOf_eq_ok_iff hext hlinks).1 hpage
      exact ⟨⟨code, hplain⟩, hnodup⟩
  · rintro ⟨⟨code, hplain⟩, hnodup⟩
    exact ⟨.code code, (compileSource_eq_ok_iff hext hparse hlinks).2 ⟨hplain, hnodup⟩⟩

namespace Pantry

/-- A macro in a block with a loop around it. A name that is no test is compared with,
and what joins is emitted twice. -/
def tree : Template :=
  [.mk (.forIn "x" none (some (.filter (.var "xs") (.var "sort"))) none
      [.mk (.block "row"
        [.mk (.macroDef "cell" [⟨"v", some (.property (.var "x") (.var "unit"))⟩]
          [.mk (.echo (some (.filter (.var "v") (.call (.var "join") [⟨.str ", ", none⟩]))))
            .unknown]) .unknown]) .unknown,
        .mk .forElse .unknown]) .unknown,
    .mk (.ifThen (some (.is (.var "n") (.var "prime"))) []
      (some [.mk (.text "none") .unknown])) .unknown]

def compiler : Compiler := { Compiler.initial with parse := fun _ _ => .ok tree }

end Pantry

/-- A page that compiles: each part of it is one of those the condition is about. -/
theorem Compiler.compileSource_succeeds_iff_pantry :
    (∀ s ∈ Node.statements Pantry.tree, s.isLinked = false) ∧ Template.Compilable Pantry.tree ∧
      ∃ out, (exec (Pantry.compiler.compileSource "" "x" .page) .empty).1 = .ok out := by
  have hlinked : ∀ s ∈ Node.statements Pantry.tree, s.isLinked = false := by decide +kernel
  have hcompilable : Template.Compilable Pantry.tree := by decide +kernel
  exact ⟨hlinked, hcompilable,
    (compileSource_succeeds_iff .empty rfl rfl rfl rfl rfl hlinked).2 hcompilable⟩

/-- An expression nobody knows is not noticed in a name, but in an argument. -/
example : Template.Compilable [.mk (.echo (some (.property (.var "a") (.var "b")))) .unknown] ∧
    ¬ Template.Compilable
      [.mk (.echo (some (.filter (.var "a") (.call (.var "join") [⟨.unknown, none⟩]))))
        .unknown] := by
  decide +kernel

end Stencil
