/-
# Expressions and their faults

The emission of an expression fails with the first of its faults, at the statement that is being
emitted. If there is none it gives code, and this is the same code in every environment of the
compiler and in every state with as many open loops: what a filter is given can be told before it
is emitted. `Meets` says both of one emission; it is kept by putting emissions together.

Key definitions: `Compiler.Unfailing`, `Emit.Env.Alone`, `Emit.Amid`, `Emit.Meets`.
Key theorems: `Emit.Meets.bind`, `Emit.Meets.code`, `Emit.expr_meets`.
-/
import Stencil.Proofs.Faults

namespace Stencil

/-- Functions and filters of the user's own do not fail. -/
structure Compiler.Unfailing (c : Compiler) : Prop where
  functions : ∀ name f, c.functions.lookup name = some f →
    ∀ arguments raw, ∃ code, f.expand arguments raw = .ok code
  filters : ∀ name f, c.filters.lookup name = some f →
    ∀ arguments raw, ∃ code, f.expand arguments raw = .ok code

namespace Emit

/-- The environment is one of the compiler for the source, and a call of the parent's block gives an
empty text. -/
structure Env.Alone (c : Compiler) (source : String) (env : Env) : Prop where
  compiler : env.compiler = c
  source : env.source = source
  super : ∀ s : State, s.currentBlock = none → exec env.superBlock s = (.ok "''", s)

/-- In the midst of a page: the statement at `pos` is being emitted inside of so many loops, and
macros are defined. -/
structure Amid (c : Compiler) (source : String) (pos : Position) (depth : Nat)
    (defined : List String) (s : State) :
    Prop where
  pos : s.pos = pos
  depth : s.loopLevel = depth
  macros : ∀ n, n ∈ s.macros ↔ n ∈ defined
  stem : ∀ x, s.stem = some x → x = c.stemFor source ∧ Compiler.isIdentifier x = true
  block : s.currentBlock = none
  extended : s.extended = false

/-! ### Emissions of expressions -/

/-- The emission fails with the first of the faults, at the statement being emitted; if there is
none, it gives `a`. -/
def Meets {α : Type} (c : Compiler) (source : String) (depth : Nat) (fs : List Fault)
    (m : Env → EmitM α) (a : α) : Prop :=
  ∀ env, env.Alone c source → ∀ pos defined s, Amid c source pos depth defined s →
    (fs = [] → ∃ t, exec (m env) s = (.ok a, t) ∧ Amid c source pos depth defined t) ∧
      ∀ f, fs.head? = some f → ∃ t, exec (m env) s = (.error (f.error (.of pos source)), t)

section
variable {c : Compiler} {source : String} {depth : Nat} {α β : Type} {fs gs : List Fault}

namespace Meets

variable {m m' : Env → EmitM α} {a : α}

theorem pure (a : α) : Meets c source depth [] (fun _ => Pure.pure a) a :=
  fun _ _ _ _ s hs => ⟨fun _ => ⟨s, rfl, hs⟩, fun f hf => by cases hf⟩

theorem congr (heq : ∀ env, env.Alone c source → m env = m' env)
    (h : Meets c source depth fs m' a) :
    Meets c source depth fs m a := by
  intro env H
  rw [heq env H]
  exact h env H

theorem bind {k : Env → α → EmitM β} {b : β} (h : Meets c source depth fs m a)
    (hk : fs = [] → Meets c source depth gs (fun env => k env a) b) :
    Meets c source depth (fs ++ gs) (fun env => m env >>= k env) b := by
  intro env H pos defined s hs
  obtain ⟨hok, herror⟩ := h env H pos defined s hs
  cases fs with
  | cons f rest =>
    refine ⟨fun hnil => by simp at hnil, fun f' hf' => ?_⟩
    obtain ⟨t, ht⟩ := herror f' (by simpa using hf')
    exact ⟨t, by rw [exec_bind, ht]⟩
  | nil =>
    obtain ⟨t, ht, hamid⟩ := hok rfl
    rw [exec_bind, ht]
    exact hk rfl env H pos defined t hamid

/-- What is made of the result. -/
theorem ret (f : α → β) (h : Meets c source depth fs m a) :
    Meets c source depth fs (fun env => m env >>= fun x => Pure.pure (f x)) (f a) := by
  have hbind := h.bind (k := fun _ x => Pure.pure (f x)) fun _ => .pure (f a)
  rwa [List.append_nil] at hbind

theorem map (f : α → β) (h : Meets c source depth fs m a) :
    Meets c source depth fs (fun env => f <$> m env) (f a) := by
  simpa only [map_eq_pure_bind] using h.ret f

theorem fail (f : Fault) (a : α) :
    Meets c source depth [f] (fun env => Emit.fail env f.error) a := by
  intro env H pos defined s hs
  refine ⟨fun hnil => (by cases hnil), fun f' hf' => ⟨s, ?_⟩⟩
  obtain rfl : f = f' := Option.some.inj hf'
  rw [exec_fail, hs.pos, H.source]

/-- The emission leaves all as it is, but for notes that say nothing of the place. -/
theorem within {enter : State → State} {leave : State → State → State}
    (henter : ∀ pos defined s, Amid c source pos depth defined s →
      Amid c source pos depth defined (enter s))
    (hleave : ∀ pos defined s t, Amid c source pos depth defined t →
      Amid c source pos depth defined (leave s t))
    (h : Meets c source depth fs m a) :
    Meets c source depth fs (fun env => Emit.within enter leave (m env)) a := by
  intro env H pos defined s hs
  obtain ⟨hok, herror⟩ := h env H pos defined _ (henter pos defined s hs)
  refine ⟨fun hfs => ?_, fun f hf => ?_⟩
  · obtain ⟨t, ht, hamid⟩ := hok hfs
    exact ⟨leave s t, by rw [exec_within, ht], hleave pos defined s t hamid⟩
  · obtain ⟨t, ht⟩ := herror f hf
    exact ⟨leave s t, by rw [exec_within, ht]⟩

theorem inExpr (h : Meets c source depth fs m a) :
    Meets c source depth fs (fun env => Emit.inExpr (m env)) a :=
  h.within (fun _ _ _ hs => ⟨hs.pos, hs.depth, hs.macros, hs.stem, hs.block, hs.extended⟩)
    fun _ _ _ _ ht => ⟨ht.pos, ht.depth, ht.macros, ht.stem, ht.block, ht.extended⟩

/-- Extensions are asked before the emission is run. -/
theorem hooked {m : Env → EmitM String} {a : String} (e : Expr) (h : Meets c source depth fs m a) :
    Meets c source depth (c.unanswered e fs) (fun env => Emit.hooked env e (m env))
      ((c.handled (·.expression e)).getD a) := by
  unfold Compiler.unanswered
  cases hanswer : c.handled (·.expression e) with
  | some code =>
    refine congr (fun env H => ?_) (pure code).inExpr
    rw [Emit.hooked, asked, H.compiler, hanswer]
  | none =>
    refine congr (fun env H => ?_) h.inExpr
    rw [Emit.hooked, asked, H.compiler, hanswer]

/-- An expression whose code is a constant. -/
theorem literal (e : Expr) (code : String) :
    Meets c source depth [] (fun env => Emit.hooked env e (Pure.pure code))
    ((c.handled (·.expression e)).getD code) := by
  rw [← Compiler.unanswered_nil c e]
  exact (pure code).hooked e

end Meets

theorem alone_inner (c : Compiler) (source : String) (nested : String → Mode → DiskM Output) :
    (Env.inner c source nested).Alone c source := ⟨rfl, rfl, fun _ _ => rfl⟩

theorem alone_outer (c : Compiler) (source : String) (nested : String → Mode → DiskM Output) :
    (Env.outer c source nested).Alone c source := by
  refine ⟨rfl, rfl, fun s hs => ?_⟩
  show exec (superCode _) s = _
  rw [superCode, exec_bind, exec_get]
  simp [hs]

theorem initial_amid (c : Compiler) (source : String) (autoescape : Bool) (d : Disk) (depth : Nat) :
    Amid c source .unknown depth [] { State.initial autoescape d with loopLevel := depth } :=
  ⟨rfl, rfl, fun _ => Iff.rfl, fun _ h => (by cases h), rfl, rfl⟩

/-- The code of an expression is the same wherever it stands, but for the depth. -/
theorem Meets.code {e : Expr} {a : String} (h : Meets c source depth fs (fun env => expr env e) a) :
    Meets c source depth fs (fun env => expr env e) (c.codeAt source depth e) := by
  intro env H pos defined s hs
  refine ⟨fun hfs => ?_, (h env H pos defined s hs).2⟩
  obtain ⟨t, ht, -⟩ :=
    (h _ (alone_inner c source _) _ _ _ (initial_amid c source false .empty depth)).1 hfs
  have hcode : c.codeAt source depth e = a := by
    rw [Compiler.codeAt, ht]
    rfl
  rw [hcode]
  exact (h env H pos defined s hs).1 hfs

end

/-! ### Parts of expressions -/

section
variable {c : Compiler} {source : String} {depth : Nat} {fs : List Fault}

theorem loopStem_meets :
    Meets c source depth (c.stemFaults source) loopStem (c.stemFor source) := by
  intro env H pos defined s hs
  unfold Compiler.stemFaults
  rw [loopStem, exec_bind, exec_get, H.compiler, H.source]
  dsimp only
  cases hstem : s.stem with
  | some x =>
    obtain ⟨rfl, hx⟩ := hs.stem x hstem
    rw [if_pos hx]
    exact ⟨fun _ => ⟨s, rfl, hs⟩, fun f hf => by cases hf⟩
  | none =>
    by_cases hident : Compiler.isIdentifier (c.stemFor source) = true
    · simp only [if_pos hident]
      refine ⟨fun _ => ⟨_, rfl, hs.pos, hs.depth, hs.macros, fun x hx => ?_, hs.block, hs.extended⟩,
        fun f hf => by cases hf⟩
      obtain rfl : c.stemFor source = x := Option.some.inj hx
      exact ⟨rfl, hident⟩
    · simp only [if_neg hident]
      refine ⟨fun hnil => (by cases hnil), fun f hf => ⟨s, ?_⟩⟩
      obtain rfl : Fault.invalidStem = f := Option.some.inj hf
      rfl

theorem identifier_meets (name : String) :
    ∃ a, Meets c source depth (c.nameFaults source depth name)
      (fun env => identifier env name) a := by
  by_cases hloop : name = "loop" ∧ 0 < depth
  · refine ⟨"$" ++ c.stemFor source ++ toString depth ++ "loop", ?_⟩
    rw [Compiler.nameFaults, if_pos hloop]
    intro env H pos defined s hs
    have hused : Amid c source pos depth defined { s with recorded := depth :: s.recorded } :=
      ⟨hs.pos, hs.depth, hs.macros, hs.stem, hs.block, hs.extended⟩
    have hstem := (loopStem_meets.ret fun stem =>
      "$" ++ stem ++ toString depth ++ "loop") env H pos defined _ hused
    dsimp only
    rw [identifier, exec_bind, exec_get]
    simp only [hs.depth, if_pos hloop]
    exact hstem
  · refine ⟨if c.services.contains name then "$this->" ++ name else "$" ++ name, ?_⟩
    rw [Compiler.nameFaults, if_neg hloop]
    intro env H pos defined s hs
    refine ⟨fun _ => ⟨s, ?_, hs⟩, fun f hf => by cases hf⟩
    dsimp only
    rw [identifier, exec_bind, exec_get, H.compiler]
    simp only [hs.depth, if_neg hloop]
    split <;> rfl

theorem objectCode_meets (object : Expr) {m : Env → EmitM String} {o : String}
    (h : Meets c source depth fs m o) :
    ∃ a, Meets c source depth (c.objectFaults source depth object fs)
      (fun env => objectCode env object (m env)) a := by
  cases object with
  | var name => exact identifier_meets name
  | _ => exact ⟨o, h⟩

theorem attrCode_meets (attr : Expr) {m : Env → EmitM String} {a : String}
    (h : Meets c source depth fs m a) :
    ∃ b, Meets c source depth (attr.unlessName fs) (fun env => attrCode attr (m env)) b := by
  cases attr with
  | var name => exact ⟨name, .pure name⟩
  | _ => exact ⟨a, h⟩

section
variable (hc : c.Unfailing)
include hc

theorem callNamed_meets (name arguments : String) (raw : List Arg) :
    ∃ a, Meets c source depth [] (fun env => callNamed env name arguments raw) a := by
  cases hanswer : c.handled (·.function name arguments raw) with
  | some code =>
    refine ⟨code, .congr (fun env H => ?_) (.pure code)⟩
    rw [callNamed, H.compiler, hanswer]
  | none =>
    cases hlookup : c.functions.lookup name with
    | some f =>
      obtain ⟨code, hcode⟩ := hc.functions name f hlookup arguments raw
      refine ⟨code, .congr (fun env H => ?_) (.pure code)⟩
      simp only [callNamed, H.compiler, hanswer, hlookup, hcode, ofExcept]
    | none =>
      by_cases hsuper : name = "super"
      · have hquiet : Meets c source depth [] (fun env => env.superBlock) "''" :=
          fun env H _ _ s hs => ⟨fun _ => ⟨s, H.super s hs.block, hs⟩, fun f hf => by cases hf⟩
        refine ⟨"''", .congr (fun env H => ?_) hquiet⟩
        simp only [callNamed, H.compiler, hanswer, hlookup, if_pos hsuper]
      · refine ⟨_, .congr (fun env H => ?_) (.pure (Code.call name arguments))⟩
        simp only [callNamed, H.compiler, hanswer, hlookup, if_neg hsuper]

theorem callCode_meets (callee : Expr) (arguments : String) (raw : List Arg)
    {m : Env → EmitM String} {f : String} (h : Meets c source depth fs m f) :
    ∃ a, Meets c source depth (callee.unlessName fs)
      (fun env => callCode env callee arguments raw (m env)) a := by
  cases callee with
  | var name => exact callNamed_meets hc name arguments raw
  | _ => exact ⟨_, h.ret fun code => Code.apply code arguments⟩

theorem filterNamed_meets (name l arguments : String) (raw : List Arg) {m : Env → EmitM String}
    {g : String} (hglue : Meets c source depth [] m g) :
    ∃ a, Meets c source depth (c.filterFault name arguments raw)
      (fun env => filterNamed env name l arguments raw (m env)) a := by
  unfold Compiler.filterFault Compiler.knowsFilter
  cases hanswer : c.handled (·.filter name arguments raw) with
  | some code =>
    refine ⟨code, .congr (fun env H => ?_) (.pure code)⟩
    rw [filterNamed, H.compiler, hanswer]
  | none =>
    cases hlookup : c.filters.lookup name with
    | some f =>
      obtain ⟨code, hcode⟩ := hc.filters name f hlookup arguments raw
      refine ⟨code, .congr (fun env H => ?_) (.pure code)⟩
      simp only [filterNamed, H.compiler, hanswer, hlookup, hcode, ofExcept]
    | none =>
      simp only [Option.isSome_none, Bool.false_or]
      by_cases hjoin : name = "join"
      · have hknown : Code.filterNames.contains name = true := by rw [hjoin]; decide
        rw [if_pos hknown]
        refine ⟨_, .congr (fun env H => ?_)
          (hglue.ret fun glue => Code.apply "join" (Code.commas [glue, l]))⟩
        simp only [filterNamed, H.compiler, hanswer, hlookup, if_pos hjoin]
      · have hbuiltin := Code.filter?_isSome hjoin l arguments
        cases hfilter : Code.filter? name l arguments with
        | some code =>
          rw [if_pos (by rw [← hbuiltin, hfilter]; rfl)]
          refine ⟨code, .congr (fun env H => ?_) (.pure code)⟩
          simp only [filterNamed, H.compiler, hanswer, hlookup, if_neg hjoin, hfilter]
        | none =>
          rw [if_neg (by rw [← hbuiltin, hfilter]; decide)]
          refine ⟨"", .congr (fun env H => ?_) (.fail (.unknownFilter name) "")⟩
          simp only [filterNamed, H.compiler, hanswer, hlookup, if_neg hjoin, hfilter]
          rfl

theorem filterCode_meets (filter : Expr) (l : String) {operands : Env → EmitM (List String)}
    {glue : Env → EmitM String}
    (hgiven : ∀ name as, filter = .call (.var name) as →
      Meets c source depth (filter.faultsOperands c source depth) operands
        (c.argCodes source depth as))
    (hglue : filter.filterName?.isSome = true → filter.faultsOperands c source depth = [] →
      ∃ g, Meets c source depth [] glue g) :
    ∃ a, Meets c source depth
      (filter.faultsOperands c source depth ++ c.filterFaults source depth l filter)
      (fun env => filterCode env filter l (operands env) (glue env)) a := by
  cases filter with
  | var name =>
    obtain ⟨g, hg⟩ := hglue rfl rfl
    exact filterNamed_meets hc name l l (filterArgs name l []) hg
  | call callee raw =>
    cases callee with
    | var name =>
      have hargs := hgiven name raw rfl
      -- there is something to join with only if the arguments have no faults
      obtain ⟨a, ha⟩ : ∃ a, Expr.faultsArgs c source depth raw = [] →
          Meets c source depth (c.filterFaults source depth l (.call (.var name) raw))
            (fun env => filterNamed env name l (c.filterGiven source depth name l raw)
              (filterArgs name l raw) (glue env))
            a := by
        by_cases hnil : Expr.faultsArgs c source depth raw = []
        · obtain ⟨g, hg⟩ := hglue rfl hnil
          obtain ⟨a, ha⟩ := filterNamed_meets hc name l (c.filterGiven source depth name l raw)
            (filterArgs name l raw) hg
          exact ⟨a, fun _ => ha⟩
        · exact ⟨"", fun h => absurd h hnil⟩
      refine ⟨a, ?_⟩
      unfold Compiler.filterGiven at ha
      simp only [filterCode, Expr.faultsOperands]
      by_cases hdefault : name = "default"
      · simp only [if_pos hdefault] at ha ⊢
        cases raw with
        | nil => exact (Meets.pure l).bind fun _ => ha rfl
        | cons _ _ => exact (hargs.map Code.commas).bind ha
      · simp only [if_neg hdefault] at ha ⊢
        exact (Meets.literal (.resolved l) l).bind fun _ => hargs.bind fun hnil =>
          (Meets.pure _).bind fun _ => ha hnil
    | _ => exact ⟨"", .fail .invalidFilter ""⟩
  | _ => exact ⟨"", .fail .invalidFilter ""⟩

end

theorem testCode_meets (test : Expr) (l : String) {operands : Env → EmitM (List String)}
    {whole : Env → EmitM String} {os : List Fault} {w : String}
    (hgiven : ∀ name as, test = .call (.var name) as →
      Meets c source depth os operands (c.argCodes source depth as))
    (hwhole : Meets c source depth fs whole w) :
    ∃ a, Meets c source depth (test.ofTest os fs)
      (fun env => testCode test l (operands env) (whole env)) a := by
  have hequal : Meets c source depth fs
      (fun env => whole env >>= fun code => pure (Code.between l "==" code)) _ :=
    hwhole.ret (Code.between l "==")
  cases test with
  | var name =>
    have hname := Code.test?_isSome name l
    cases htest : Code.test? name l with
    | some code =>
      rw [htest] at hname
      refine ⟨code, ?_⟩
      simp only [testCode, htest, Expr.ofTest, if_pos (of_decide_eq_true hname.symm)]
      exact .pure code
    | none =>
      rw [htest] at hname
      simp only [testCode, htest, Expr.ofTest, if_neg (of_decide_eq_false hname.symm)]
      exact ⟨_, hequal⟩
  | call callee as =>
    cases callee with
    | var name =>
      simp only [testCode, Expr.ofTest]
      by_cases hmem : name ∈ Code.operandTests
      · simp only [if_pos hmem]
        exact ⟨_, (hgiven name as rfl).ret fun given => Code.operandTest name l (Code.commas given)⟩
      · simp only [if_neg hmem]
        exact ⟨_, hequal⟩
    | _ => exact ⟨_, hequal⟩
  | _ => exact ⟨_, hequal⟩

end

/-! ### Expressions -/

mutual

/-- The emission of an expression meets its faults. -/
theorem expr_meets {c : Compiler} (hc : c.Unfailing) (source : String) (depth : Nat) (e : Expr) :
    Meets c source depth (e.faults c source depth) (fun env => expr env e)
      (c.codeAt source depth e) := by
  obtain ⟨a, h⟩ : ∃ a, Meets c source depth (e.faults c source depth)
    (fun env => expr env e) a := by
    cases e with
    | integer _ | double _ | str _ | bool _ | null | resolved _ =>
      simp only [expr, lowered]
      exact ⟨_, .literal _ _⟩
    | var name =>
      simp only [expr, lowered, Expr.faults]
      obtain ⟨a, ha⟩ : ∃ a, Meets c source depth _ _ a := identifier_meets name
      exact ⟨_, ha.hooked _⟩
    | property o a =>
      simp only [expr, lowered, Expr.faults]
      obtain ⟨x, hx⟩ := objectCode_meets o (expr_meets hc source depth o)
      obtain ⟨y, hy⟩ := attrCode_meets a (expr_meets hc source depth a)
      exact ⟨_, (hx.bind fun _ => hy.ret _).hooked _⟩
    | index o i =>
      simp only [expr, lowered, Expr.faults]
      exact ⟨_,
        ((expr_meets hc source depth o).bind fun _ =>
          (expr_meets hc source depth i).ret _).hooked _⟩
    | binary op l r =>
      simp only [expr, lowered, Expr.faults]
      exact ⟨_,
        ((expr_meets hc source depth l).bind fun _ =>
          (expr_meets hc source depth r).ret _).hooked _⟩
    | unary op x =>
      simp only [expr, lowered, Expr.faults]
      exact ⟨_, ((expr_meets hc source depth x).ret _).hooked _⟩
    | call f as =>
      simp only [expr, lowered, Expr.faults]
      obtain ⟨x, hx⟩ := callCode_meets hc f (Code.commas (c.argCodes source depth as)) as
        (expr_meets hc source depth f)
      exact ⟨_, ((args_meets hc source depth as).bind fun _ => hx).hooked _⟩
    | filter l f =>
      simp only [expr, lowered, Expr.faults]
      obtain ⟨x, hx⟩ := filterCode_meets hc f (c.codeAt source depth l)
        (operands_meets hc source depth f)
        (glue_meets hc source depth f)
      exact ⟨_, ((expr_meets hc source depth l).bind fun _ => hx).hooked _⟩
    | is l t =>
      simp only [expr, lowered, Expr.faults]
      obtain ⟨x, hx⟩ := testCode_meets t (c.codeAt source depth l)
        (operands_meets hc source depth t)
        (expr_meets hc source depth t)
      exact ⟨_, ((expr_meets hc source depth l).bind fun _ => hx).hooked _⟩
    | isNot l t =>
      simp only [expr, lowered, Expr.faults]
      obtain ⟨x, hx⟩ := testCode_meets t (c.codeAt source depth l)
        (operands_meets hc source depth t)
        (expr_meets hc source depth t)
      exact ⟨_, ((expr_meets hc source depth l).bind fun _ => hx.ret _).hooked _⟩
    | ternary b y n =>
      simp only [expr, lowered, Expr.faults]
      exact ⟨_,
        ((expr_meets hc source depth b).bind fun _ => (expr_meets hc source depth y).bind fun _ =>
        (expr_meets hc source depth n).ret _).hooked _⟩
    | slice o s e =>
      simp only [expr, lowered, Expr.faults]
      obtain ⟨x, hx⟩ := exprOrNull_meets hc source depth s
      obtain ⟨y, hy⟩ := exprOrNull_meets hc source depth e
      exact ⟨_, ((expr_meets hc source depth o).bind fun _ => hx.bind fun _ => hy.ret _).hooked _⟩
    | array as =>
      simp only [expr, lowered, Expr.faults]
      exact ⟨_, ((args_meets hc source depth as).ret _).hooked _⟩
    | enclosed x =>
      simp only [expr, lowered, Expr.faults]
      exact ⟨_, ((expr_meets hc source depth x).ret _).hooked _⟩
    | unknown =>
      simp only [expr, lowered, Expr.faults]
      exact ⟨_, (Meets.fail .unknownExpression "").hooked _⟩
  exact h.code

theorem args_meets {c : Compiler} (hc : c.Unfailing) (source : String) (depth : Nat)
    (as : List Arg) :
    Meets c source depth (Expr.faultsArgs c source depth as) (fun env => args env as)
      (c.argCodes source depth as) := by
  cases as with
  | nil =>
    simp only [args]
    exact .pure []
  | cons a rest =>
    obtain ⟨e, name⟩ := a
    simp only [args, Expr.faultsArgs]
    exact (expr_meets hc source depth e).bind fun _ =>
      (args_meets hc source depth rest).ret (_ :: ·)

theorem operands_meets {c : Compiler} (hc : c.Unfailing) (source : String) (depth : Nat) (e : Expr)
    (name : String) (as : List Arg) (h : e = .call (.var name) as) :
    Meets c source depth (e.faultsOperands c source depth) (fun env => operands env e)
      (c.argCodes source depth as) := by
  cases e with
  | call f bs =>
    obtain ⟨rfl, rfl⟩ := Expr.call.inj h
    simp only [operands, Expr.faultsOperands]
    exact args_meets hc source depth bs
  | _ => cases h

theorem glue_meets {c : Compiler} (hc : c.Unfailing) (source : String) (depth : Nat) (e : Expr)
    (hname : e.filterName?.isSome = true) (h : e.faultsOperands c source depth = []) :
    ∃ g, Meets c source depth [] (fun env => glue env e) g := by
  cases e with
  | call f as =>
    cases f with
    | var name =>
      cases as with
      | nil =>
        simp only [glue]
        exact ⟨_, .pure _⟩
      | cons a rest =>
        obtain ⟨x, key⟩ := a
        simp only [glue]
        simp only [Expr.faultsOperands, Expr.faultsArgs, List.append_eq_nil_iff] at h
        exact ⟨_, h.1 ▸ expr_meets hc source depth x⟩
    | _ => cases hname
  | _ =>
    simp only [glue]
    exact ⟨_, .pure _⟩

theorem exprOrNull_meets {c : Compiler} (hc : c.Unfailing) (source : String) (depth : Nat)
    (e : Option Expr) :
    ∃ a, Meets c source depth (Expr.faultsOption c source depth e)
      (fun env => exprOrNull env e) a := by
  cases e with
  | none =>
    simp only [exprOrNull]
    exact ⟨_, .pure _⟩
  | some e =>
    simp only [exprOrNull, Expr.faultsOption]
    exact ⟨_, expr_meets hc source depth e⟩

end

end Emit
end Stencil
