/-
# Calls of the parent's block

An override may call the block that it overrides. Where the call is the whole expression of a
statement it becomes the code of the parent's body, and as part of a larger expression it
becomes one literal. Emissions decide this by how many expressions are open, and the parent's
body is emitted meanwhile, with its own statements and expressions. The outcome is a property
of the expression alone: `operand` emits it by what it is, in an environment whose calls are
all literals, and looks at no counter.

So it makes no difference which statement the expression belongs to. That is right where it is
printed, since there the parent's body is code of the template. In a condition, in an assignment
or in what a loop runs over, the same code stands in the middle of a section.

Key definitions: `Text.literal`, `Emit.inheritedCode`, `Emit.operand`, `Emit.SameFrom`,
`Emit.Steady`, `Emit.overrideRules`, `Emit.Overridden`.
Key theorems: `Text.readQuoted?_literal`, `Emit.expr_eq_operand`, `Emit.override_sound`,
`Emit.merge_shows_parent_calls`.
-/
import Stencil.Proofs.Levels
import Stencil.Proofs.Merging
import Stencil.Proofs.Traced

namespace Stencil

/-! ### Literals with slashes -/

namespace Text

/-- A text with slashes between quotes. -/
def literal (text : String) : String := "'" ++ slashed text ++ "'"

/-- What a literal holds of a character. A double quote keeps its backslash, and so does the
zero that stands for NUL. -/
def held (c : Char) : List Char :=
  if c = '"' then ['\\', '"'] else if c = '\x00' then ['\\', '0'] else [c]

theorem readQuotedBody?_close (rest : List Char) :
    readQuotedBody? (apostrophe :: rest) = some ([], rest) := by
  cases rest <;> simp [readQuotedBody?]

theorem readQuotedBody?_plain {c : Char} (hback : c ≠ '\\') (hquote : c ≠ apostrophe)
    (cs : List Char) :
    readQuotedBody? (c :: cs) = (readQuotedBody? cs).map fun p => (c :: p.1, p.2) := by
  cases cs <;> simp [readQuotedBody?, hback, hquote]

/-- A backslash before any other character stands for itself. -/
theorem readQuotedBody?_kept {d : Char} (hback : d ≠ '\\') (hquote : d ≠ apostrophe)
    (cs : List Char) :
    readQuotedBody? ('\\' :: d :: cs) = (readQuotedBody? cs).map fun p =>
      ('\\' :: d :: p.1, p.2) := by
  have hfirst : readQuotedBody? ('\\' :: d :: cs) =
      (readQuotedBody? (d :: cs)).map fun p => ('\\' :: p.1, p.2) := by
    have hslash : '\\' ≠ apostrophe := by decide
    simp [readQuotedBody?, hback, hquote, hslash]
  rw [hfirst, readQuotedBody?_plain hback hquote, Option.map_map]
  rfl

theorem readQuotedBody?_slashed (cs rest : List Char) :
    readQuotedBody? (cs.flatMap slashChar ++ apostrophe :: rest) =
      some (cs.flatMap held, rest) := by
  induction cs with
  | nil => exact readQuotedBody?_close rest
  | cons c cs ih =>
    rw [List.flatMap_cons, List.flatMap_cons, List.append_assoc]
    generalize hmore : cs.flatMap slashChar ++ apostrophe :: rest = more at ih ⊢
    by_cases hback : c = '\\'
    · subst hback
      simp [slashChar, held, readQuotedBody?, ih, apostrophe]
    by_cases hquote : c = apostrophe
    · subst hquote
      simp [slashChar, held, readQuotedBody?, ih, apostrophe]
    by_cases hdouble : c = '"'
    · subst hdouble
      have hchar : slashChar '"' = ['\\', '"'] := rfl
      rw [hchar, List.cons_append, List.singleton_append,
        readQuotedBody?_kept (by decide) (by decide), ih]
      rfl
    by_cases hnul : c = '\x00'
    · subst hnul
      have hchar : slashChar '\x00' = ['\\', '0'] := rfl
      rw [hchar, List.cons_append, List.singleton_append,
        readQuotedBody?_kept (by decide) (by decide), ih]
      rfl
    simp [slashChar, held, readQuotedBody?_plain hback hquote, ih, hback, hquote, hdouble, hnul]

/-- A literal ends where it is closed, whatever its text. -/
theorem readQuoted?_literal (text : String) (rest : List Char) :
    readQuoted? ((literal text).toList ++ rest) = some (text.toList.flatMap held, rest) := by
  have hchars : (literal text).toList ++ rest =
      apostrophe :: (text.toList.flatMap slashChar ++ apostrophe :: rest) := by
    simp [literal, slashed, apostrophe]
  rw [hchars, readQuoted?, if_pos rfl, readQuotedBody?_slashed]

end Text

/-! ### Bodies that extend nothing -/

/-- No statement of the body extends a template. -/
def BlockBody.extendsNothing : BlockBody → Bool
  | .code _ => true
  | .nodes ns => (Node.statements ns).all fun x => !x.isExtending

theorem BlockBody.extendsNothing_nodes {ns : List Node}
    (h : (BlockBody.nodes ns).extendsNothing = true) :
    ∀ x ∈ Node.statements ns, x.isExtending = false := by
  intro x hx
  have hall := List.all_eq_true.1 h x hx
  simpa using hall

/-- None of the bodies extends anything. -/
def BlockMap.extendsNothing (m : BlockMap) : Bool := m.entries.all (·.2.extendsNothing)

theorem BlockMap.extendsNothing_of_mem {m : BlockMap} (h : m.extendsNothing = true) {key : BlockKey}
    {body : BlockBody} (hmem : (key, body) ∈ m.entries) : body.extendsNothing = true :=
  List.all_eq_true.1 h _ hmem

namespace Emit

/-! ### The body that is overridden -/

/-- The code of the body that is overridden, emitted in `inner`, if there is one. -/
def inheritedCode (inner : Env) : EmitM (Option String) := do
  let s ← get
  match s.currentBlock.bind fun name => s.parent.bind (·.named? name) with
  | none => return none
  | some body => some <$> outsideBlock (bodyCode inner body)

/-- What a call of the parent's block becomes, by how many expressions are open. -/
def shownParent : Option String → EmitM String
  | none => return "''"
  | some code => do if (← get).exprLevel == 1 then return code else return Text.literal code

theorem superCode_eq (inner : Env) : superCode inner = inheritedCode inner >>= shownParent := by
  unfold superCode inheritedCode
  rw [bind_assoc]
  refine bind_congr fun s => ?_
  cases s.currentBlock.bind fun name => s.parent.bind (·.named? name) with
  | none => rfl
  | some body =>
    dsimp only
    rw [map_eq_pure_bind, bind_assoc]
    cases body with
    | code code => rfl
    | nodes ns => rfl

theorem exec_shownParent (code : Option String) (s : State) :
    exec (shownParent code) s =
      (.ok (if s.exprLevel = 1 then code.getD "''" else Text.literal (code.getD "")), s) := by
  cases code with
  | none =>
    have hempty : Text.literal "" = "''" := rfl
    simp [shownParent, hempty]
  | some code =>
    unfold shownParent
    rw [exec_bind, exec_get]
    dsimp only
    by_cases hlevel : s.exprLevel = 1 <;> simp [hlevel]

section
variable (c : Compiler) (source : String) (nested : String → Mode → DiskM Output)

/-- An environment in which every call of the parent's block is a literal. -/
def Env.quoting : Env where
  compiler := c
  source := source
  superBlock := do return Text.literal ((← inheritedCode (.inner c source nested)).getD "")
  nested := nested

/-- The whole expression of a statement, by what it is: a call of the parent's block is the code
of the parent's body, and in all other expressions such calls are literals. -/
def operand (e : Expr) : EmitM String :=
  if e.isSuper then inExpr do
    let _ ← operands (.quoting c source nested) e
    return (← inheritedCode (.inner c source nested)).getD "''"
  else expr (.quoting c source nested) e

end

/-! ### Emissions that are the same at some depth -/

/-- Wherever at least `n` expressions are open the emissions do the same, and they leave as
many open. -/
def SameFrom (n : Nat) {α : Type} (m₁ m₂ : EmitM α) : Prop :=
  ∀ s : State, n ≤ s.exprLevel → exec m₁ s = exec m₂ s ∧ (exec m₁ s).2.exprLevel = s.exprLevel

namespace SameFrom

variable {α β : Type} {n : Nat} {m m₁ m₂ : EmitM α}

theorem refl (h : Restores m) : SameFrom n m m :=
  fun s _ => ⟨rfl, congrArg Nesting.exprLevel (h s).1⟩

theorem mono {k : Nat} (h : SameFrom n m₁ m₂) (hk : n ≤ k) : SameFrom k m₁ m₂ :=
  fun s hs => h s (Nat.le_trans hk hs)

theorem bind {f₁ f₂ : α → EmitM β} (h : SameFrom n m₁ m₂) (hf : ∀ a, SameFrom n (f₁ a) (f₂ a)) :
    SameFrom n (m₁ >>= f₁) (m₂ >>= f₂) := by
  intro s hs
  obtain ⟨hsame, hlevel⟩ := h s hs
  rw [exec_bind, exec_bind, ← hsame]
  rcases hr : exec m₁ s with ⟨r, t⟩
  rw [hr] at hlevel
  have hlevel : t.exprLevel = s.exprLevel := hlevel
  cases r with
  | error e => exact ⟨rfl, hlevel⟩
  | ok a =>
    obtain ⟨hfa, hleave⟩ := hf a t (hlevel ▸ hs)
    exact ⟨hfa, hleave.trans hlevel⟩

/-- Inside an expression one more is open. -/
theorem inExpr (h : SameFrom (n + 1) m₁ m₂) : SameFrom n (Emit.inExpr m₁) (Emit.inExpr m₂) := by
  intro s hs
  obtain ⟨hsame, hlevel⟩ := h { s with exprLevel := s.exprLevel + 1 } (Nat.succ_le_succ hs)
  unfold Emit.inExpr
  rw [exec_within, exec_within, ← hsame]
  exact ⟨rfl, congrArg (· - 1) hlevel⟩

end SameFrom

section
variable {env : Env} {other : EmitM String} {n : Nat}

/-- Environments that answer differently to calls of the parent's block only. -/
theorem sameFrom_congruence (hrestores : Restores env.superBlock)
    (hsuper : SameFrom n env.superBlock other) :
    Congruence env { env with superBlock := other } fun _ => SameFrom n where
  pure a := .refl (.pure a)
  throw e := .refl (.throw e)
  bind := .bind
  inExpr h := (h.mono (Nat.le_succ n)).inExpr
  fail cause := .refl (.fail env cause)
  super := hsuper
  expression _ := rfl
  function _ _ _ := rfl
  filter _ _ _ := rfl
  identifier name := .refl (identifier_stable (restores_stable hrestores) name)
  functions := rfl
  filters := rfl

/-- What is done with the parts of an expression does not ask for the parent's block. -/
theorem mute_sameFrom :
    Congruence env.mute (Env.mute { env with superBlock := other }) fun _ => SameFrom n := by
  have hmute : Restores env.mute.superBlock := .pure ""
  exact sameFrom_congruence hmute (.refl hmute)

/-- An expression is one level further out than what it emits. -/
theorem expr_sameFrom
    (hexpr : ∀ e, SameFrom (n + 1) (expr env e) (expr { env with superBlock := other } e))
    (e : Expr) (hsuper : e.isSuper = true → SameFrom (n + 1) env.superBlock other) :
    SameFrom n (expr env e) (expr { env with superBlock := other } e) := by
  rw [expr_eq_inExpr, expr_eq_inExpr]
  refine SameFrom.inExpr ?_
  unfold inside asked
  dsimp only
  split
  · exact .refl (.pure _)
  · exact lowered_of_parts mute_sameFrom hexpr e hsuper

end

section
variable {c : Compiler} {source : String} {nested : String → Mode → DiskM Output}

theorem inheritedCode_restores : Restores (inheritedCode (.inner c source nested)) := by
  refine .get_bind fun s => ?_
  split
  · exact .pure _
  · rename_i body _
    have hinner : Restores (Env.inner c source nested).superBlock := .pure _
    rw [map_eq_pure_bind]
    exact (bodyCode_restores hinner body).outsideBlock.bind fun _ => .pure _

/-- Inside of a larger expression a call of the parent's block is a literal. -/
theorem superCode_sameFrom :
    SameFrom 2 (superCode (.inner c source nested)) (Env.quoting c source nested).superBlock := by
  rw [superCode_eq]
  refine (SameFrom.refl inheritedCode_restores).bind fun code s hs => ?_
  have hlevel : s.exprLevel ≠ 1 := by omega
  rw [exec_shownParent, if_neg hlevel]
  exact ⟨rfl, rfl⟩

/-- As the whole expression of a statement it is the code of the parent's body. -/
theorem superCode_whole {s : State} (hs : s.exprLevel = 1) :
    exec (superCode (.inner c source nested)) s =
      exec (do return (← inheritedCode (.inner c source nested)).getD "''") s := by
  have hlevel : (exec (inheritedCode (.inner c source nested)) s).2.exprLevel = 1 :=
    (congrArg Nesting.exprLevel (inheritedCode_restores s).1).trans hs
  rw [superCode_eq, exec_bind, exec_bind]
  rcases hr : exec (inheritedCode (.inner c source nested)) s with ⟨r, t⟩
  rw [hr] at hlevel
  cases r with
  | error e => rfl
  | ok code =>
    dsimp only
    rw [exec_shownParent, if_pos hlevel]
    rfl

/-- An expression inside of a larger one has literals for calls of the parent's block. -/
theorem expr_sameFrom_one (e : Expr) :
    SameFrom 1 (expr (.outer c source nested) e) (expr (.quoting c source nested) e) := by
  have hrestores : Restores (Env.outer c source nested).superBlock := superBlock_restores (.inr rfl)
  -- two levels down the calls themselves agree, so all expressions do
  have hdeep : ∀ e, SameFrom 2 (expr (.outer c source nested) e)
      (expr (.quoting c source nested) e) :=
    expr_related (sameFrom_congruence hrestores superCode_sameFrom)
  exact expr_sameFrom hdeep e fun _ => superCode_sameFrom

/-- So has the whole expression of a statement, unless it is such a call itself. -/
theorem expr_sameFrom_zero {e : Expr} (he : e.isSuper = false) :
    SameFrom 0 (expr (.outer c source nested) e) (expr (.quoting c source nested) e) :=
  expr_sameFrom expr_sameFrom_one e fun hsuper => absurd hsuper (by simp [he])

theorem expr_superCall (hext : c.extensions = []) (hsuper : c.functions.lookup "super" = none)
    (as : List Arg) :
    expr (.outer c source nested) (.call (.var "super") as) =
      inExpr (args (.outer c source nested) as >>= fun _ =>
        superCode (.inner c source nested)) := by
  have hnone : ∀ hook, (Env.outer c source nested).compiler.handled hook = none :=
    Compiler.handled_eq_none hext
  rw [expr, hooked, asked, hnone, lowered]
  refine congrArg inExpr (bind_congr fun given => ?_)
  show callNamed (.outer c source nested) "super" _ as = _
  unfold callNamed
  rw [hnone]
  dsimp only [Env.outer]
  rw [hsuper]
  rfl

/-- The arguments of a call are inside of it, and what the call becomes is not. -/
theorem whole_call (as : List Arg) {s : State} (hs : s.exprLevel = 1) :
    exec (args (.outer c source nested) as >>= fun _ => superCode (.inner c source nested)) s =
      exec (do
        let _ ← args (.quoting c source nested) as
        return (← inheritedCode (.inner c source nested)).getD "''") s := by
  have hargs : SameFrom 1 (args (.outer c source nested) as) (args (.quoting c source nested) as) :=
    args_of_parts mute_sameFrom expr_sameFrom_one as
  obtain ⟨hsame, hlevel⟩ := hargs s (Nat.le_of_eq hs.symm)
  rw [exec_bind, exec_bind, ← hsame]
  rcases hr : exec (args (.outer c source nested) as) s with ⟨r, t⟩
  rw [hr] at hlevel
  cases r with
  | error e => rfl
  | ok given => exact superCode_whole (hlevel.trans hs)

/-- Where no expression is open, an expression is emitted by what it is. -/
theorem expr_eq_operand (hext : c.extensions = [])
    (hsuper : c.functions.lookup "super" = none) (e : Expr) {s : State} (hs : s.exprLevel = 0) :
    exec (expr (.outer c source nested) e) s = exec (operand c source nested e) s := by
  unfold operand
  by_cases he : e.isSuper = true
  · rw [if_pos he]
    unfold Expr.isSuper at he
    split at he
    · rename_i name as
      rw [beq_iff_eq] at he
      subst he
      rw [expr_superCall hext hsuper, operands]
      unfold inExpr
      rw [exec_within, exec_within, whole_call as (congrArg (· + 1) hs)]
    · cases he
  · rw [if_neg he]
    exact (expr_sameFrom_zero (by simpa using he) s (Nat.zero_le _)).1

end

/-! ### What is extended stays the same -/

/-- What the template extends, and whether that counts. -/
def State.lineage (s : State) : Option BlockMap × Bool := (s.parent, s.extended)

/-- From a state that extends `parent`, the emission leaves what is extended as it was. -/
def Steady (parent : BlockMap) {α : Type} (m : EmitM α) : Prop :=
  ∀ s : State, s.parent = some parent → (exec m s).2.lineage = s.lineage

namespace Steady

variable {parent : BlockMap} {α β : Type} {m : EmitM α}

theorem pure (a : α) : Steady parent (Pure.pure a : EmitM α) := fun _ _ => rfl

theorem modify {upd : State → State} (h : ∀ s, (upd s).lineage = s.lineage) :
    Steady parent (modify upd) :=
  fun s _ => h s

theorem bind {f : α → EmitM β} (h : Steady parent m) (hf : ∀ a, Steady parent (f a)) :
    Steady parent (m >>= f) := by
  intro s hs
  have hm := h s hs
  rw [exec_bind]
  rcases hr : exec m s with ⟨r, t⟩
  rw [hr] at hm
  have hm : t.lineage = s.lineage := hm
  cases r with
  | error e => exact hm
  | ok a =>
    have ht : t.parent = some parent := (congrArg Prod.fst hm).trans hs
    exact (hf a t ht).trans hm

theorem get_bind {f : State → EmitM α}
    (h : ∀ s : State, s.parent = some parent → Steady parent (f s)) :
    Steady parent (get >>= f) := by
  intro s hs
  rw [exec_bind, exec_get]
  exact h s hs s hs

theorem within {enter : State → State} {leave : State → State → State} (h : Steady parent m)
    (henter : ∀ s, (enter s).lineage = s.lineage)
    (hleave : ∀ s t, (leave s t).lineage = t.lineage) :
    Steady parent (Emit.within enter leave m) := by
  intro s hs
  rw [exec_within]
  have hin : (enter s).parent = some parent := (congrArg Prod.fst (henter s)).trans hs
  exact (hleave s _).trans ((h _ hin).trans (henter s))

end Steady

section
variable {parent : BlockMap} {env : Env}

theorem loopStem_steady : Steady parent (loopStem env) := by
  refine .get_bind fun s _ => ?_
  dsimp only
  split
  · exact .pure _
  · split
    · exact Steady.bind (.modify fun _ => rfl) fun _ => .pure _
    · exact fun _ _ => rfl

/-- Only a statement that extends something changes what is extended. -/
theorem steady_lockstep (hsuper : Steady parent env.superBlock) :
    Lockstep (fun _ => True) (fun x => x.isExtending = false) env env fun _ m _ =>
      Steady parent m where
  pure := .pure
  throw _ := fun _ _ => rfl
  bind := .bind
  inExpr h := h.within (fun _ => rfl) fun _ _ => rfl
  fail _ := fun _ _ => rfl
  super := hsuper
  expression _ := rfl
  function _ _ _ := rfl
  filter _ _ _ := rfl
  identifier name _ := by
    refine .get_bind fun s _ => ?_
    dsimp only
    split
    · exact Steady.bind (.modify fun _ => rfl) fun _ => loopStem_steady.bind fun _ => .pure _
    · split <;> exact .pure _
  functions _ _ := rfl
  filters _ _ := rfl
  uses _ _ _ _ _ := trivial
  statement _ := rfl
  look h := .get_bind fun s _ => h s s ⟨rfl, rfl, rfl, rfl⟩
  loopStem := loopStem_steady
  clearLoop _ := .modify fun _ => rfl
  noteBranch depth branch branched := by
    unfold noteBranch
    split
    · exact .modify fun _ => rfl
    · exact .pure _
  takeRecorded depth := .get_bind fun _ _ => Steady.bind (.modify fun _ => rfl) fun _ => .pure _
  forElse := by
    refine .get_bind fun s _ => ?_
    split <;> exact .pure _
  defineMacro name := by
    refine .get_bind fun s _ => ?_
    split
    · exact fun _ _ => rfl
    · exact .modify fun _ => rfl
  segment code := by
    unfold segment
    split
    · exact .pure _
    · exact .modify fun _ => rfl
  register _ _ _ := .modify fun _ => rfl
  extendView _ h := nomatch h
  included _ _ := .get_bind fun _ _ => Steady.bind (fun _ _ => rfl) fun _ => .pure _
  inLoop h := h.within (fun _ => rfl) fun _ _ => rfl
  inList _ _ _ h := h.within (fun _ => rfl) fun _ _ => rfl
  inStmt _ _ _ h := h.within (fun _ => rfl) fun _ _ => rfl
  inAutoescape _ _ _ h := h.within (fun _ => rfl) fun _ _ => rfl

theorem list_steady (hsuper : Steady parent env.superBlock) {ns : List Node}
    (hext : ∀ x ∈ Node.statements ns, x.isExtending = false) : Steady parent (list env .page ns) :=
  list_lockstep (steady_lockstep hsuper) .page ns hext

theorem expr_steady (hsuper : Steady parent env.superBlock) (e : Expr) :
    Steady parent (expr env e) :=
  expr_on (steady_lockstep hsuper).toCongruenceOn e fun _ _ => trivial

end

/-! ### Overrides -/

section
variable {c : Compiler} {source : String} {nested : String → Mode → DiskM Output}
  {parent : BlockMap}

theorem bodyCode_steady {env : Env} (hsuper : Steady parent env.superBlock) {body : BlockBody}
    (hbody : body.extendsNothing = true) : Steady parent (bodyCode env body) := by
  cases body with
  | code code => exact .pure code
  | nodes ns => exact list_steady hsuper (BlockBody.extendsNothing_nodes hbody)

theorem superCode_steady (hparent : parent.extendsNothing = true) :
    Steady parent (superCode (.inner c source nested)) := by
  have hinner : Steady parent (Env.inner c source nested).superBlock := .pure _
  rw [superCode_eq]
  refine Steady.bind (.get_bind fun s hs => ?_) fun code => ?_
  · split
    · exact .pure _
    · rename_i body hbody
      rw [hs] at hbody
      obtain ⟨name, -, hnamed⟩ := Option.bind_eq_some_iff.1 hbody
      have hbody := BlockMap.extendsNothing_of_mem hparent (BlockMap.mem_of_named? hnamed)
      have houtside : Steady parent (outsideBlock (bodyCode (.inner c source nested) body)) :=
        (bodyCode_steady hinner hbody).within (fun _ => rfl) fun _ _ => rfl
      rw [map_eq_pure_bind]
      exact houtside.bind fun _ => .pure _
  · cases code with
    | none => exact .pure _
    | some code =>
      refine .get_bind fun s _ => ?_
      split <;> exact .pure _

end

section
variable (c : Compiler) (source : String) (nested : String → Mode → DiskM Output)

/-- A state in which an override of the block `name` is emitted, with no expression open. -/
structure Overriding (name : String) (parent : BlockMap) (depth : Nat) (s : State) : Prop where
  block : s.currentBlock = some name
  parent : s.parent = some parent
  depth : s.loopLevel = depth
  rest : s.exprLevel = 0

/-- The whole expression of a statement has the code that `operand` gives for it. -/
def overrideRules (name : String) (parent : BlockMap) : Script.Rules where
  term t := ∃ s s', Overriding name parent t.depth s ∧
    exec (operand c source nested t.expr) s = (.ok t.code, s')
  stem _ := True
  tracked := false

/-- An entry of the layout keeps its key. If the template has a body of its own for it, the layout
has one to call, and the code is the text of a script of the template's body. -/
def Overridden (own parent : BlockMap) (autoescape : Bool) (entry : BlockKey × BlockBody)
    (shown : BlockKey × String) : Prop :=
  shown.1 = entry.1 ∧ ∀ name body, entry.1 = .name name → own.named? name = some (.nodes body) →
    (parent.named? name).isSome = true ∧
      ∃ script, Node.Scripted (overrideRules c source nested name parent)
        (.outermost autoescape) body script ∧
        Script.text script = shown.2

end

section
variable {c : Compiler} {source : String} {nested : String → Mode → DiskM Output}
  {parent : BlockMap}
  (hext : c.extensions = []) (hsuper : c.functions.lookup "super" = none)
  (hparent : parent.extendsNothing = true)

include hext hsuper hparent in
theorem override_sound (name : String) :
    Stage.Sound ⟨.outer c source nested, overrideRules c source nested name parent, some name,
      some parent⟩ where
  extensions := hext
  stem _ := trivial
  expr around k e s hs code t he := by
    have hrestores : Restores (expr (.outer c source nested) e) :=
      expr_stable (restores_stable (superBlock_restores (.inr rfl))) e
    have hsteady : Steady parent (expr (.outer c source nested) e) :=
      expr_steady (superCode_steady hparent) e
    have hnesting : t.nesting = s.nesting := by
      rw [← (hrestores s).1, he]
    have hlineage : t.lineage = s.lineage := by
      rw [← hsteady s hs.parent, he]
    have hoperand : exec (operand c source nested e) s = (.ok code, t) :=
      (expr_eq_operand hext hsuper e hs.rest).symm.trans he
    refine ⟨⟨s, t, ⟨hs.block, hs.parent, hs.depth, hs.rest⟩, hoperand⟩, ?_⟩
    exact ⟨(congrArg Nesting.autoescape hnesting).trans hs.autoescape,
      (congrArg Nesting.loopLevel hnesting).trans hs.depth,
        (congrArg Nesting.exprLevel hnesting).trans hs.rest,
      (congrArg Nesting.currentBlock hnesting).trans hs.block,
        (congrArg Prod.fst hlineage).trans hs.parent,
      (congrArg Prod.snd hlineage).trans hs.extended, fun _ _ => trivial, fun h =>
        absurd h Bool.false_ne_true⟩

/-! ### Merging -/

/-- A state between two entries of a merge. -/
structure Between (parent : BlockMap) (autoescape : Bool) (s : State) : Prop where
  autoescape : s.autoescape = autoescape
  depth : s.loopLevel = 0
  rest : s.exprLevel = 0
  parent : s.parent = some parent
  extended : s.extended = false

variable {a : Bool} {s t : State}

include hparent in
theorem bodyCode_between {body : BlockBody} (hbody : body.extendsNothing = true)
    {block : Option String} {code : String} (hs : Between parent a s)
    (he : exec (bodyCode (.outer c source nested) body) { s with currentBlock := block } =
      (.ok code, t)) :
    Between parent a t := by
  have hrestores : Restores (bodyCode (.outer c source nested) body) :=
    bodyCode_restores (superBlock_restores (.inr rfl)) body
  have hsteady : Steady parent (bodyCode (.outer c source nested) body) :=
    bodyCode_steady (superCode_steady hparent) hbody
  have hnesting := (hrestores { s with currentBlock := block }).1
  have hlineage := hsteady { s with currentBlock := block } hs.parent
  rw [he] at hnesting hlineage
  exact ⟨(congrArg Nesting.autoescape hnesting).trans hs.autoescape,
    (congrArg Nesting.loopLevel hnesting).trans hs.depth,
      (congrArg Nesting.exprLevel hnesting).trans hs.rest,
    (congrArg Prod.fst hlineage).trans hs.parent, (congrArg Prod.snd hlineage).trans hs.extended⟩

variable {own : BlockMap} (hown : own.extendsNothing = true)

include hparent hown in
/-- What is emitted for an entry is one of the bodies of the two maps. -/
theorem override_extendsNothing {key : BlockKey} {inherited : BlockBody}
    (hmem : (key, inherited) ∈ parent.entries) :
    (override own key inherited).2.extendsNothing = true := by
  have hinherited := BlockMap.extendsNothing_of_mem hparent hmem
  cases key with
  | position p => exact hinherited
  | name name =>
    cases hnamed : own.named? name with
    | none => simpa [override, hnamed] using hinherited
    | some body =>
      have hbody := BlockMap.extendsNothing_of_mem hown (BlockMap.mem_of_named? hnamed)
      simpa [override, hnamed] using hbody

include hext hsuper hparent hown

/-- One entry: the state is that of an override from the first statement of the body on. -/
theorem entry_overridden {key : BlockKey} {inherited : BlockBody}
    (hmem : (key, inherited) ∈ parent.entries) {code : String} (hs : Between parent a s)
    (he : exec (bodyCode (.outer c source nested) (override own key inherited).2)
      { s with currentBlock := (override own key inherited).1 } = (.ok code, t)) :
    Overridden c source nested own parent a (key, inherited) (key, code) := by
  refine ⟨rfl, fun name body hkey hnamed => ?_⟩
  have hkey : key = .name name := hkey
  subst hkey
  have hover : override own (.name name) inherited = (some name, .nodes body) := by
    simp [override, hnamed]
  rw [hover] at he
  have hcalled : (parent.named? name).isSome = true := by
    rw [Option.isSome_iff_ne_none]
    intro hnone
    have hother := List.lookup_eq_none_iff.1 hnone _ hmem
    simp at hother
  have hstands : Stands ⟨.outer c source nested, overrideRules c source nested name parent,
      some name, some parent⟩
      (fun _ => (none, false)) (.outermost a) { s with currentBlock := some name } :=
    ⟨hs.autoescape, hs.depth, hs.rest, rfl, hs.parent, hs.extended, fun _ _ => trivial,
      fun h => absurd h Bool.false_ne_true⟩
  have hbody := BlockBody.extendsNothing_nodes
    (BlockMap.extendsNothing_of_mem hown (BlockMap.mem_of_named? hnamed))
  exact ⟨hcalled,
    (list_traced (override_sound hext hsuper hparent name) body _ _ hbody _ hstands _ _ he).1⟩

/-- The entries one after another. -/
theorem mergeEntries_overridden (entries : List (BlockKey × BlockBody)) :
    ∀ {s t : State} {out : List (BlockKey × String)},
    (∀ e ∈ entries, e ∈ parent.entries) → Between parent a s →
    exec (mergeEntries (.outer c source nested) own entries) s = (.ok out, t) →
    List.Forall₂ (Overridden c source nested own parent a) entries out := by
  induction entries with
  | nil =>
    intro s t out _ _ he
    rw [mergeEntries] at he
    cases he
    exact .nil
  | cons entry rest ih =>
    intro s t out hmem hs he
    obtain ⟨key, inherited⟩ := entry
    rw [mergeEntries] at he
    obtain ⟨_, s₁, hmodify, he⟩ := exec_bind_eq_ok.1 he
    cases hmodify
    obtain ⟨code, s₂, hcode, he⟩ := exec_bind_eq_ok.1 he
    obtain ⟨codes, s₃, hcodes, he⟩ := exec_bind_eq_ok.1 he
    cases he
    have hfirst := hmem _ List.mem_cons_self
    have hbetween := bodyCode_between hparent (override_extendsNothing hparent hown hfirst) hs hcode
    exact .cons (entry_overridden hext hsuper hparent hown hfirst hs hcode)
      (ih (fun e he => hmem e (List.mem_cons_of_mem _ he)) hbetween hcodes)

end

/-- **Calls of the parent's block.** Where no expression is open, an expression is emitted by what
it is: a call of the parent's block as the code of the parent's body, and all else with one literal
for each such call. A literal reads as one, whatever its text. When a template is merged into the
layout that it extends, the code of each override is the text of a script of its body, and in it
the whole expression of every statement is emitted so, from a state of that override. Printing a
call of the parent's block is thus the code of the parent's body; in every other statement the same
code takes the place of an expression. -/
theorem merge_shows_parent_calls (c : Compiler) (source : String)
    (nested : String → Mode → DiskM Output)
    (hext : c.extensions = []) (hsuper : c.functions.lookup "super" = none) :
    (∀ (e : Expr) (s : State), s.exprLevel = 0 →
      exec (expr (.outer c source nested) e) s = exec (operand c source nested e) s) ∧
    (∀ text rest, Text.readQuoted? ((Text.literal text).toList ++ rest) =
      some (text.toList.flatMap Text.held, rest)) ∧
    ∀ (mode : Mode) (tree : Template) (a : Bool) (d : Disk) (listed : String) (s t : State)
      (parent : BlockMap)
      (out : List (BlockKey × String)),
      exec (list (.outer c source nested) mode tree) (.initial a d) = (.ok listed, s) →
      s.parent = some parent → s.blocks.extendsNothing = true → parent.extendsNothing = true →
      exec (merge (.outer c source nested)) s = (.ok out, t) →
      List.Forall₂ (Overridden c source nested s.blocks parent a) parent.entries out := by
  refine ⟨fun e s hs => expr_eq_operand hext hsuper e hs, Text.readQuoted?_literal, ?_⟩
  intro mode tree a d listed s t parent out hlist hparent hown hinherited hmerge
  have hrestores : Restores (list (.outer c source nested) mode tree) :=
    list_restores (superBlock_restores (.inr rfl)) mode tree
  have hnesting := (hrestores (.initial a d)).1
  rw [hlist] at hnesting
  have hbetween : Between parent a { s with blocks := .empty, extended := false } :=
    ⟨congrArg Nesting.autoescape hnesting, congrArg Nesting.loopLevel hnesting,
      congrArg Nesting.exprLevel hnesting,
      hparent, rfl⟩
  unfold merge at hmerge
  rw [exec_bind, exec_get] at hmerge
  dsimp only at hmerge
  have hentries : (s.parent.getD .empty).entries = parent.entries := by
    rw [hparent]
    rfl
  rw [exec_within, hentries, Prod.mk.injEq] at hmerge
  exact mergeEntries_overridden hext hsuper hinherited hown parent.entries (fun _ he => he) hbetween
    (Prod.ext hmerge.1 rfl)

namespace Gable

/-- A layout whose title has a quote in it. -/
def layout : BlockMap :=
  ⟨[(.position 0, .code "<h1>"), (.name "title", .nodes [.mk (.text "It's") .unknown])], 1⟩

/-- Every template that is named is the layout. -/
def env : Env := .outer Compiler.initial "gable" fun _ _ => pure (.blocks layout)

/-- A template that overrides the title. -/
def tree (body : List Node) : Template :=
  [.mk (.extending (some (.str "base"))) .unknown, .mk (.block "title" body) .unknown]

/-- The parent's title by itself and in a larger expression. -/
def title : List Node :=
  [.mk (.echo (some superCall)) .unknown,
    .mk (.echo (some (.binary .concat superCall (.str "!")))) .unknown]

/-- The state in which the template is merged. -/
def rested : State := (exec (list env .page (tree title)) (.initial false .empty)).2

end Gable

/-- The parent's title is code where it is printed, and a literal beside another text. -/
theorem merge_shows_parent_calls_gable :
    (exec (merge Gable.env) Gable.rested).1 =
        .ok [(.position 0, "<h1>"), (.name "title", "It's<?= 'It\\'s' . '!' ?>")] ∧
      List.Forall₂
        (Overridden Compiler.initial "gable" Gable.env.nested Gable.rested.blocks Gable.layout false)
        Gable.layout.entries
        [(.position 0, "<h1>"), (.name "title", "It's<?= 'It\\'s' . '!' ?>")] := by
  obtain ⟨-, -, hmerge⟩ :=
    merge_shows_parent_calls Compiler.initial "gable" Gable.env.nested rfl rfl
  exact ⟨by rfl, hmerge .page (Gable.tree Gable.title) false .empty "" Gable.rested
    (exec (merge Gable.env) Gable.rested).2 Gable.layout _ (by rfl) (by rfl) (by rfl)
      (by rfl) (by rfl)⟩

/-- As a condition the parent's title is code too. No literal stands there. -/
theorem parent_code_in_condition :
    (exec (page Gable.env (Gable.tree [.mk (.ifThen (some superCall) [] none) .unknown]))
      (.initial false .empty)).1 =
        .ok "<h1><?php if (It's) \x7b ?><?php \x7d ?>" ∧
      Text.readQuoted? "It's".toList = none := ⟨by rfl, by rfl⟩

end Emit
end Stencil
