/-
# What a literal of the parent's code stands for

A call of the parent's block inside of a larger expression becomes a literal. Slashes are put
before both kinds of quotes, before backslashes and for NUL, but between single quotes only the
first and the third of these are taken away again when the literal is read. So the literal ends
where it is closed, whatever the parent's code is; and it stands for this code exactly if there
is no double quote and no NUL in it. Otherwise each of them has one more backslash before it, and
the NUL is a zero.

Key theorems: `Text.flatMap_held_eq_iff`, `Emit.exec_inheritedCode`,
`Emit.quoted_parent_call`.
-/
import Stencil.Proofs.ParentCalls

namespace Stencil

/-! ### Texts that a literal holds as they are -/

theorem Text.flatMap_held_eq_iff (cs : List Char) :
    cs.flatMap held = cs ↔ '"' ∉ cs ∧ '\x00' ∉ cs := by
  induction cs with
  | nil => simp
  | cons c cs ih =>
    rw [List.flatMap_cons]
    by_cases hdouble : c = '"'
    · -- the first character would be a backslash
      subst hdouble
      simp [held]
    by_cases hnul : c = '\x00'
    · subst hnul
      simp [held]
    · have hc : held c = [c] := by simp [held, hdouble, hnul]
      have hother : '"' ≠ c ∧ '\x00' ≠ c := ⟨fun h => hdouble h.symm, fun h => hnul h.symm⟩
      rw [hc, List.singleton_append, List.cons.injEq, ih]
      simp [hother]

/-- A literal stands for its text exactly if that has no double quote and no NUL. -/
theorem Text.literal_exact_iff (text : String) :
    (∀ rest, readQuoted? ((literal text).toList ++ rest) = some (text.toList, rest)) ↔
      '"' ∉ text.toList ∧ '\x00' ∉ text.toList := by
  rw [← flatMap_held_eq_iff]
  constructor
  · intro h
    have hread := (readQuoted?_literal text []).symm.trans (h [])
    exact congrArg Prod.fst (Option.some.inj hread)
  · intro h rest
    rw [readQuoted?_literal, h]

namespace Emit

/-! ### Calls inside of larger expressions -/

/-- In an override, the body that is overridden is emitted with no block overridden. -/
theorem exec_inheritedCode {inner : Env} {s t : State} {name code : String} {parent : BlockMap}
    {body : BlockBody} (hblock : s.currentBlock = some name) (hparent : s.parent = some parent)
    (hbody : parent.named? name = some body)
    (hcode : exec (bodyCode inner body) { s with currentBlock := none } = (.ok code, t)) :
    exec (inheritedCode inner) s = (.ok (some code), { t with currentBlock := some name }) := by
  unfold inheritedCode
  rw [exec_bind, exec_get]
  dsimp only
  rw [hblock, Option.bind_some, hparent, Option.bind_some, hbody]
  dsimp only
  rw [exec_map, outsideBlock, exec_within, hcode]
  dsimp only
  rw [hblock]
  rfl

section
variable {c : Compiler} {source : String} {nested : String → Mode → DiskM Output}

/-- An expression that is inside of a larger one, or is no call of the parent's block itself, has a
literal for each such call. -/
theorem expr_eq_quoting {e : Expr} {s : State} (h : e.isSuper = true → 0 < s.exprLevel) :
    exec (expr (.outer c source nested) e) s = exec (expr (.quoting c source nested) e) s := by
  cases he : e.isSuper with
  | false => exact (expr_sameFrom_zero he s (Nat.zero_le _)).1
  | true => exact (expr_sameFrom_one e s (h he)).1

/-- A call of the parent's block inside of a larger expression is the literal of what the parent's
body compiles to, after the arguments of the call. -/
theorem exec_superCall_quoted (hext : c.extensions = [])
    (hsuper : c.functions.lookup "super" = none)
    {as : List Arg} {s u t : State} {given : List String} {name code : String} {parent : BlockMap}
    {body : BlockBody} (hinside : 0 < s.exprLevel)
    (hargs : exec (args (.outer c source nested) as) { s with exprLevel := s.exprLevel + 1 } =
      (.ok given, u))
    (hblock : u.currentBlock = some name) (hparent : u.parent = some parent)
    (hbody : parent.named? name = some body)
    (hcode : exec (bodyCode (.inner c source nested) body) { u with currentBlock := none } =
      (.ok code, t)) :
    exec (expr (.outer c source nested) (.call (.var "super") as)) s =
      (.ok (Text.literal code),
        { t with currentBlock := some name, exprLevel := s.exprLevel }) := by
  have hinherited := exec_inheritedCode hblock hparent hbody hcode
  have hlevel : u.exprLevel = s.exprLevel + 1 := by
    have hsame : SameFrom 1 (args (.outer c source nested) as)
        (args (.quoting c source nested) as) :=
      args_of_parts mute_sameFrom expr_sameFrom_one as
    have hleft := (hsame { s with exprLevel := s.exprLevel + 1 } (Nat.succ_pos _)).2
    rw [hargs] at hleft
    exact hleft
  have hleft : t.exprLevel = u.exprLevel := by
    have hrestores : Restores (inheritedCode (.inner c source nested)) := inheritedCode_restores
    have hnesting := (hrestores u).1
    rw [hinherited] at hnesting
    exact congrArg Nesting.exprLevel hnesting
  have hsuperCode : exec (superCode (.inner c source nested)) u =
      (.ok (Text.literal code), { t with currentBlock := some name }) := by
    rw [(superCode_sameFrom u (by omega)).1]
    show exec (inheritedCode (.inner c source nested) >>= fun code =>
      pure (Text.literal (code.getD ""))) u = _
    rw [exec_bind, hinherited]
    rfl
  rw [expr_superCall hext hsuper, inExpr, exec_within, exec_bind, hargs]
  dsimp only
  rw [hsuperCode]
  dsimp only
  rw [hleft, hlevel, Nat.add_sub_cancel]

end

/-- **Literals of the parent's code.** An expression that is inside of a larger one, or is itself no
call of the parent's block, is emitted with a literal for each such call in it. Inside of a larger
expression, in an override whose parent's body compiles to `code`, the call is the literal of this
code. It ends at its closing quote, whatever comes after it, and stands for the code with a
backslash before each double quote and a backslash and a zero for each NUL; so it stands for the
code itself exactly if there is none of these. -/
theorem quoted_parent_call (c : Compiler) (source : String) (nested : String → Mode → DiskM Output)
    (hext : c.extensions = []) (hsuper : c.functions.lookup "super" = none) :
    (∀ (e : Expr) (s : State), (e.isSuper = true → 0 < s.exprLevel) →
      exec (expr (.outer c source nested) e) s = exec (expr (.quoting c source nested) e) s) ∧
    ∀ (as : List Arg) (s u t : State) (given : List String) (name code : String) (parent : BlockMap)
      (body : BlockBody), 0 < s.exprLevel →
      exec (args (.outer c source nested) as) { s with exprLevel := s.exprLevel + 1 } =
      (.ok given, u) →
      u.currentBlock = some name → u.parent = some parent → parent.named? name = some body →
      exec (bodyCode (.inner c source nested) body) { u with currentBlock := none } =
      (.ok code, t) →
      ∃ literal, exec (expr (.outer c source nested) (.call (.var "super") as)) s =
          (.ok literal, { t with currentBlock := some name, exprLevel := s.exprLevel }) ∧
        (∀ rest, Text.readQuoted? (literal.toList ++ rest) =
          some (code.toList.flatMap Text.held, rest)) ∧
        ((∀ rest, Text.readQuoted? (literal.toList ++ rest) = some (code.toList, rest)) ↔
          '"' ∉ code.toList ∧ '\x00' ∉ code.toList) := by
  refine ⟨fun e s h => expr_eq_quoting h, ?_⟩
  intro as s u t given name code parent body hinside hargs hblock hparent hbody hcode
  exact ⟨Text.literal code,
    exec_superCall_quoted hext hsuper hinside hargs hblock hparent hbody hcode,
    Text.readQuoted?_literal code, Text.literal_exact_iff code⟩

namespace Placard

/-- A layout with a title. -/
def layout (title : String) : BlockMap :=
  ⟨[(.name "title", .nodes [.mk (.text title) .unknown])], 0⟩

/-- Every template that is named is the layout with this title. -/
def env (title : String) : Env :=
  .outer Compiler.initial "placard" fun _ _ => pure (.blocks (layout title))

/-- Quotes of both kinds, a backslash and a NUL. -/
def title : String := "It's \"so\" \\ \x00"

/-- The title is overridden, and one expression is open. -/
def state : State :=
  { State.initial false .empty with
    exprLevel := 1, currentBlock := some "title", parent := some (layout title) }

/-- A template in which the parent's title has a mark behind it. -/
def tree : Template :=
  [.mk (.extending (some (.str "base"))) .unknown,
    .mk (.block "title"
      [.mk (.echo (some (.binary .concat superCall (.str "!")))) .unknown]) .unknown]

end Placard

/-- The parent's title inside of a larger expression, where the literal stands for another text. -/
theorem quoted_parent_call_placard :
    ∃ literal, (exec (expr (Placard.env Placard.title) superCall) Placard.state).1 = .ok literal ∧
      (∀ rest, Text.readQuoted? (literal.toList ++ rest) =
        some ("It's \\\"so\\\" \\ \\0".toList, rest)) ∧
      ¬ ∀ rest, Text.readQuoted? (literal.toList ++ rest) = some (Placard.title.toList, rest) := by
  obtain ⟨-, hcall⟩ := quoted_parent_call Compiler.initial "placard"
    (Placard.env Placard.title).nested rfl rfl
  obtain ⟨literal, hliteral, hread, hexact⟩ :=
    hcall [] Placard.state { Placard.state with exprLevel := 2 }
    { Placard.state with exprLevel := 2, currentBlock := none } [] "title" Placard.title
    (Placard.layout Placard.title)
      (.nodes [.mk (.text Placard.title) .unknown]) Nat.one_pos rfl rfl rfl rfl rfl
  have hheld : Placard.title.toList.flatMap Text.held = "It's \\\"so\\\" \\ \\0".toList := by
    decide +kernel
  rw [hheld] at hread
  have hdouble : '"' ∈ Placard.title.toList := by decide +kernel
  exact ⟨literal, congrArg Prod.fst hliteral, hread, fun h => (hexact.1 h).1 hdouble⟩

/-- A double quote in the parent's title has a backslash before it in what the literal stands
for. -/
theorem quoted_parent_keeps_slash :
    (exec (page (Placard.env "say \"hi\"") Placard.tree) (.initial false .empty)).1 =
        .ok "<?= 'say \\\"hi\\\"' . '!' ?>" ∧
      Text.readQuoted? "'say \\\"hi\\\"' . '!' ?>".toList =
        some ("say \\\"hi\\\"".toList, " . '!' ?>".toList) ∧
      "say \\\"hi\\\"".toList ≠ "say \"hi\"".toList := ⟨by rfl, by decide +kernel, by decide⟩

end Emit
end Stencil
