/-
# Signs before operands

A prefix operator is written right before the code of its operand. Read token by token, the result
is the operator's own token and then those of the operand, unless the operand starts with something
that makes a longer token of both. What the code of an expression starts with is decided by its
leftmost part: in an infix expression, an attribute, an index or a comparison that is the operand
written first. If nothing is registered, only a negative number or another prefix operator gives it
a sign, so a minus is lost before a minus and a plus before a plus, and nowhere else.

Key definitions: `Expr.leftmost`, `Expr.sign?`, `Expr.settled`, `Emit.Opens`, `Emit.Opening`.
Key theorems: `Emit.expr_opening`, `Emit.prefixed_tokens`.
-/
import Stencil.Emit.Layout
import Stencil.Proofs.Emitted
import Stencil.Proofs.Tokens
import Stencil.Proofs.Uses

namespace Stencil

/-! ### What is written first -/

/-- The operator stands between its operands. -/
def BinaryOp.isInfix : BinaryOp → Bool
  | .pow | .range | .isIn | .notIn => false
  | _ => true

/-- The test is built in; others are compared with. -/
def Expr.isBuiltinTest : Expr → Bool
  | .var name => name ∈ Code.plainTests
  | .call (.var name) _ => name ∈ Code.operandTests
  | _ => false

/-- The part of an expression that is written first and starts with something of its own. -/
def Expr.leftmost : Expr → Expr
  | .property object _ => object.leftmost
  | .index object _ => object.leftmost
  | .binary op left right => if op.isInfix then left.leftmost else .binary op left right
  | .is left test => if test.isBuiltinTest then .is left test else left.leftmost
  | .call (.var name) arguments => .call (.var name) arguments
  | .call callee _ => callee.leftmost
  | e => e

theorem Expr.leftmost_call {callee : Expr} (h : ∀ name, callee = .var name → False)
    (arguments : List Arg) :
    (Expr.call callee arguments).leftmost = callee.leftmost := by
  cases callee with
  | var name => exact (h name rfl).elim
  | _ => rfl

/-- The sign that an expression itself starts with. -/
def Expr.sign? : Expr → Option Char
  | .integer v => if v.toInt < 0 then some '-' else none
  | .double v => if v.toBits >>> 63 = 1 ∧ v.isNaN = false then some '-' else none
  | .unary .minus _ => some '-'
  | .unary .plus _ => some '+'
  | _ => none

/-- What the code of the expression starts with is up to this library: it is not given as code, and
not left to a registered callable or to the parent's block. -/
def Expr.settled (c : Compiler) : Expr → Bool
  | .resolved _ => false
  | .call (.var name) _ => name != "super" && (c.functions.lookup name).isNone
  | .filter _ (.var name) => (c.filters.lookup name).isNone
  | .filter _ (.call (.var name) _) => (c.filters.lookup name).isNone
  | _ => true

/-- The token of a prefix operator. -/
def UnaryOp.mark? : UnaryOp → Option Char
  | .not => some '!'
  | .minus => some '-'
  | .plus => some '+'
  | _ => none

theorem UnaryOp.mem_marks {op : UnaryOp} {c : Char} (h : op.mark? = some c) : c ∈ Token.marks := by
  cases op <;> cases h <;> decide

theorem UnaryOp.toList_code {op : UnaryOp} {c : Char} (h : op.mark? = some c) (operand : String) :
    (op.code operand).toList = c :: operand.toList := by
  cases op <;> cases h <;> simp [UnaryOp.code]

namespace Emit

/-! ### Texts that start with a sign -/

/-- What a mark may be joined with. -/
def joining : List Char := ['-', '+', '=', '>']

/-- The text starts with the sign, or with something that no mark is joined with. -/
def Opens (sign : Option Char) (code : String) : Prop :=
  ∃ c cs, code.toList = c :: cs ∧ sign = if c ∈ joining then some c else none

theorem Opens.append {sign : Option Char} {a : String} (h : Opens sign a) (b : String) :
    Opens sign (a ++ b) := by
  obtain ⟨c, cs, ha, hsign⟩ := h
  exact ⟨c, cs ++ b.toList, by rw [String.toList_append, ha, List.cons_append], hsign⟩

/-- A text whose first character is no sign. -/
theorem Opens.plain {c : Char} {cs : List Char} {code : String} (hcode : code.toList = c :: cs)
    (hc : c ∉ joining) : Opens none code := ⟨c, cs, hcode, (if_neg hc).symm⟩

theorem Opens.text {code : String} (h : (code.toList.head?.any (· ∉ joining)) = true) :
    Opens none code := by
  cases hcode : code.toList with
  | nil => simp [hcode] at h
  | cons c cs =>
    rw [hcode] at h
    exact .plain hcode (by simpa using h)

theorem Opens.minus {a : String} : Opens (some '-') ("-" ++ a) := ⟨'-', a.toList, by simp, rfl⟩

theorem Opens.plus {a : String} : Opens (some '+') ("+" ++ a) := ⟨'+', a.toList, by simp, rfl⟩

/-- A mark is joined with what starts with the same sign. -/
theorem Opens.joined_iff {sign : Option Char} {code : String} (h : Opens sign code)
    (hsign : ∀ d, sign = some d → d = '-' ∨ d = '+') {c : Char} (hc : c ∈ Token.marks) :
    (∀ w ∈ Token.continuations c, ¬ w.toList <+: code.toList) ↔ sign ≠ some c := by
  obtain ⟨d, ds, hcode, hd⟩ := h
  rw [hcode]
  simp only [Token.marks, List.mem_cons, List.not_mem_nil, or_false] at hc
  by_cases hjoin : d ∈ joining
  · rw [if_pos hjoin] at hd
    subst hd
    rcases hsign d rfl with rfl | rfl <;> rcases hc with rfl | rfl | rfl <;>
      simp [Token.continuations]
  · rw [if_neg hjoin] at hd
    subst hd
    simp only [joining, List.mem_cons, List.not_mem_nil, or_false, not_or] at hjoin
    obtain ⟨hminus, hplus, hequal, hmore⟩ := hjoin
    rcases hc with rfl | rfl | rfl <;>
      simp [Token.continuations, Ne.symm hminus, Ne.symm hplus, Ne.symm hequal, Ne.symm hmore]

theorem sign?_eq_some {e : Expr} {d : Char} (h : e.sign? = some d) : d = '-' ∨ d = '+' := by
  unfold Expr.sign? at h
  split at h
  · exact .inl (by grind)
  · exact .inl (by grind)
  · exact .inl (Option.some.inj h).symm
  · exact .inr (Option.some.inj h).symm
  · cases h

/-! ### Numbers -/

theorem not_joining_of_isDigit {c : Char} (h : c.isDigit = true) : c ∉ joining := by
  intro hc
  simp only [joining, List.mem_cons, List.not_mem_nil, or_false] at hc
  rcases hc with rfl | rfl | rfl | rfl <;> exact absurd h (by decide)

theorem nat_opens (n : Nat) : Opens none (toString n) := by
  have hchars : (toString n).toList = Nat.toDigits 10 n := by
    rw [Nat.toString_eq_ofList_toDigits, String.toList_ofList]
  obtain ⟨c, cs, hcons⟩ := List.exists_cons_of_ne_nil (Nat.toDigits_ne_nil (n := n) (b := 10))
  have hc : c.isDigit = true :=
    Nat.isDigit_of_mem_toDigits (b := 10) (n := n) (by decide) (by decide)
      (by rw [hcons]; exact List.mem_cons_self)
  exact .plain (hchars.trans hcons) (not_joining_of_isDigit hc)

theorem int_opens (i : Int) : Opens (if i < 0 then some '-' else none) (toString i) := by
  cases i with
  | ofNat n =>
    rw [if_neg (by simp)]
    exact nat_opens n
  | negSucc n =>
    rw [if_pos (Int.negSucc_lt_zero n)]
    exact Opens.minus (a := toString (n + 1))

theorem isDigit_of_mem_shortest {tie : Decimal.Tie} {x : Decimal.Binary} {c : Char}
    (h : c ∈ (Decimal.shortest tie x).digits) : c.isDigit = true := by
  have hnat : ∀ value scale, c ∈ (Decimal.Scientific.ofNat value scale).digits →
      c.isDigit = true := by
    intro value scale hc
    have hmem := (List.dropWhile_sublist (· == '0')).mem (List.mem_reverse.1 hc)
    exact Nat.isDigit_of_mem_toDigits (by decide) (by decide) (List.mem_reverse.1 hmem)
  unfold Decimal.shortest at h
  dsimp only at h
  split at h
  · exact hnat _ _ h
  · exact hnat _ _ h

theorem positional_opens {x : Decimal.Scientific} (h : ∀ c ∈ x.digits, c ∉ joining) :
    Opens none (String.ofList (Decimal.Numeral.positional x)) := by
  unfold Decimal.Numeral.positional
  cases x.exponent with
  | negSucc n => exact .plain String.toList_ofList (by decide)
  | ofNat n =>
    cases hdigits : x.digits with
    | nil => exact .plain String.toList_ofList (by decide : '0' ∉ joining)
    | cons c cs => exact .plain String.toList_ofList (h c (hdigits ▸ List.mem_cons_self))

theorem scientific_opens {x : Decimal.Scientific} (h : ∀ c ∈ x.digits, c ∉ joining) :
    Opens none (String.ofList (numeral.scientific x)) := by
  unfold Decimal.Numeral.scientific
  cases hdigits : x.digits with
  | nil => cases x.exponent <;> exact .plain String.toList_ofList (by decide : 'e' ∉ joining)
  | cons c cs =>
    have hc : c ∉ joining := h c (hdigits ▸ List.mem_cons_self)
    cases cs <;> exact .plain String.toList_ofList hc

/-- A magnitude starts with a digit; if there were no digits, with a point or an exponent. -/
theorem magnitude_opens (x : Decimal.Binary) :
    Opens none (String.ofList (numeral.magnitude x)) := by
  unfold Decimal.Numeral.magnitude
  split
  · exact .text (by decide)
  · dsimp only
    have hdigits : ∀ c ∈ (Decimal.shortest numeral.tie x).digits, c ∉ joining :=
      fun c hc => not_joining_of_isDigit (isDigit_of_mem_shortest hc)
    generalize Decimal.shortest numeral.tie x = d at hdigits ⊢
    split
    · exact positional_opens hdigits
    · exact scientific_opens hdigits

theorem render_opens (v : Float) :
    Opens (if v.toBits >>> 63 = 1 ∧ v.isNaN = false then some '-' else none)
      (numeral.render v) := by
  have hsigned : ∀ text : String, Opens none text →
      Opens (if v.toBits >>> 63 = 1 then some '-' else none)
        (String.ofList (if v.toBits >>> 63 = 1 then ['-'] else []) ++ text) := by
    intro text htext
    by_cases hneg : v.toBits >>> 63 = 1
    · rw [if_pos hneg, if_pos hneg]
      exact .minus
    · rw [if_neg hneg, if_neg hneg, String.ofList_nil, String.empty_append]
      exact htext
  unfold Decimal.Numeral.render
  dsimp only
  cases hnan : v.isNaN with
  | true =>
    rw [if_neg (by simp), if_pos rfl]
    exact .text (by decide)
  | false =>
    simp only [and_true, Bool.false_eq_true, if_false]
    by_cases hinf : v.isInf = true
    · rw [if_pos hinf]
      exact hsigned "inf" (.text (by decide))
    · rw [if_neg hinf, String.ofList_append]
      exact hsigned _ (magnitude_opens _)

/-! ### What emissions give -/

/-- The code that is emitted starts with the sign. -/
def Opening (sign : Option Char) (m : EmitM String) : Prop :=
  ∀ s code t, exec m s = (.ok code, t) → Opens sign code

namespace Opening

variable {sign : Option Char} {α : Type} {m : EmitM String}

theorem pure {code : String} (h : Opens sign code) : Opening sign (Pure.pure code) := by
  rintro s _ t ⟨⟩
  exact h

theorem fail (env : Env) (cause : Location → CompileError) :
    Opening sign (Emit.fail env cause) := by
  rintro s _ t ⟨⟩

theorem bind {n : EmitM α} {f : α → EmitM String} (hf : ∀ a, Opening sign (f a)) :
    Opening sign (n >>= f) := by
  intro s code t h
  obtain ⟨a, u, -, h⟩ := exec_bind_eq_ok.1 h
  exact hf a u code t h

/-- What is emitted first is written first. -/
theorem first (h : Opening sign m) {f : String → EmitM String}
    (hf : ∀ x, Opens sign x → Opening sign (f x)) : Opening sign (m >>= f) := by
  intro s code t hcode
  obtain ⟨x, u, hx, hcode⟩ := exec_bind_eq_ok.1 hcode
  exact hf x (h s x u hx) u code t hcode

theorem hooked {env : Env} (hext : env.compiler.extensions = []) {e : Expr} (h : Opening sign m) :
    Opening sign (Emit.hooked env e m) := by
  intro s code t hcode
  rw [Emit.hooked, asked, Compiler.handled_eq_none hext, inExpr, exec_within] at hcode
  obtain ⟨hresult, -⟩ := Prod.mk.inj hcode
  exact h _ code _ (Prod.ext hresult rfl)

end Opening

theorem identifier_opening (env : Env) (name : String) : Opening none (identifier env name) := by
  refine .bind fun s => ?_
  dsimp only
  split
  · refine .bind fun _ => .bind fun stem => .pure ?_
    exact (((Opens.text (by decide)).append stem).append _).append "loop"
  · split
    · exact .pure ((Opens.text (by decide)).append name)
    · exact .pure ((Opens.text (by decide)).append name)

/-- A function applied to arguments is written first. -/
theorem apply_opens {sign : Option Char} {f : String} (h : Opens sign f) (arguments : String) :
    Opens sign (Code.apply f arguments) := ((h.append "(").append arguments).append ")"

theorem between_opens {sign : Option Char} {l : String} (h : Opens sign l) (op r : String) :
    Opens sign (Code.between l op r) := (((h.append " ").append op).append " ").append r

theorem builtin_opens {name arguments code : String}
    (h : Code.builtin? name arguments = some code) :
    Opens none code := by
  have hmethods : ∀ helper ∈ Code.tagHelpers, Opens none ("$this->tag->" ++ helper.method) :=
    fun helper _ => (Opens.text (by decide)).append _
  unfold Code.builtin? at h
  split at h
  case h_13 =>
    obtain ⟨helper, hfind, rfl⟩ := Option.map_eq_some_iff.1 h
    exact apply_opens (hmethods helper (List.mem_of_find?_eq_some hfind)) _
  all_goals cases h
  -- those that leave their arguments out
  case h_1 | h_2 | h_7 | h_9 | h_10 => exact .text (by decide)
  all_goals exact apply_opens (.text (by decide)) _

theorem call_opens (name arguments : String) : Opens none (Code.call name arguments) := by
  unfold Code.call
  cases hbuiltin : Code.builtin? name arguments with
  | none => exact ((((Opens.text (by decide)).append name).append _).append arguments).append _
  | some code => exact builtin_opens hbuiltin

theorem filter_opens {name l arguments code : String}
    (h : Code.filter? name l arguments = some code) :
    Opens none code := by
  have hfunctions : ∀ p ∈ Code.filterFunctions, (p.2.toList.head?.any (· ∉ joining)) = true := by
    decide +kernel
  unfold Code.filter? at h
  by_cases hname : name = "default"
  · rw [if_pos hname] at h
    cases h
    have hopening : Opens none "(empty(" := .text (by decide)
    exact (((((hopening.append l).append _).append arguments).append _).append l).append _
  · rw [if_neg hname] at h
    obtain ⟨f, hf, rfl⟩ := Option.map_eq_some_iff.1 h
    obtain ⟨before, after, hsplit, -⟩ := List.lookup_eq_some_iff.1 hf
    have hmem : (name, f) ∈ Code.filterFunctions := by
      rw [hsplit]
      simp
    exact apply_opens (.text (hfunctions (name, f) hmem)) arguments

/-- A built-in test puts its operand in parentheses. -/
theorem test_opens {name l code : String} (h : Code.test? name l = some code) :
    Opens none code := by
  unfold Code.test? at h
  split at h <;> cases h
  · exact apply_opens (.text (by decide)) l
  · exact ((Opens.text (by decide)).append l).append _
  · exact ((Opens.text (by decide)).append l).append _
  · exact apply_opens (.text (by decide)) l
  · exact apply_opens (.text (by decide)) l
  · exact ((((Opens.text (by decide)).append l).append _).append l).append _

theorem operandTest_opens (name l operands : String) :
    Opens none (Code.operandTest name l operands) := by
  unfold Code.operandTest
  split <;> exact ((((Opens.text (by decide)).append l).append _).append operands).append _

/-- A filter that is not registered is a call of a function. -/
theorem filterNamed_opening {env : Env} (hext : env.compiler.extensions = []) {name : String}
    (hname : (env.compiler.filters.lookup name).isNone = true) (l arguments : String)
    (raw : List Arg)
    (glue : EmitM String) : Opening none (filterNamed env name l arguments raw glue) := by
  rw [filterNamed, Compiler.handled_eq_none hext, Option.isNone_iff_eq_none.1 hname]
  dsimp only
  split
  · exact .bind fun g => .pure (apply_opens (.text (by decide)) _)
  · split
    · rename_i code hcode
      exact .pure (filter_opens hcode)
    · exact .fail env _

theorem filterCode_opening {env : Env} (hext : env.compiler.extensions = []) {left filter : Expr}
    (h : (Expr.filter left filter).settled env.compiler = true) (l : String)
    (operands : EmitM (List String))
    (glue : EmitM String) : Opening none (filterCode env filter l operands glue) := by
  unfold filterCode
  split
  · exact filterNamed_opening hext h l _ _ glue
  · -- each way to the arguments ends in the filter by name
    dsimp only
    split
    · split <;> exact .bind fun given => filterNamed_opening hext h l given _ glue
    · exact .bind fun _ => .bind fun _ => .bind fun given =>
        filterNamed_opening hext h l given _ glue
  · exact .fail env _

/-- A test that is built in starts with what it is called, and any other with its operand. -/
theorem testCode_opening {sign : Option Char} {test : Expr} {l : String}
    (operands : EmitM (List String))
    (whole : EmitM String) (hl : test.isBuiltinTest = false → Opens sign l)
    (hbuiltin : test.isBuiltinTest = true → sign = none) :
    Opening sign (testCode test l operands whole) := by
  have hequal (h : test.isBuiltinTest = false) :
      Opening sign (do return Code.between l "==" (← whole)) :=
    .bind fun r => .pure (between_opens (hl h) _ r)
  unfold testCode
  dsimp only
  split
  · rename_i name
    have hname := Code.test?_isSome name l
    split
    · rename_i code hcode
      rw [hcode] at hname
      rw [hbuiltin hname.symm]
      exact .pure (test_opens hcode)
    · rename_i hnone
      rw [hnone] at hname
      exact hequal hname.symm
  · rename_i name raw
    by_cases hname : name ∈ Code.operandTests
    · rw [if_pos hname, hbuiltin (decide_eq_true hname)]
      exact .bind fun given => .pure (operandTest_opens name l _)
    · rw [if_neg hname]
      exact hequal (decide_eq_false hname)
  · exact hequal (by unfold Expr.isBuiltinTest; split <;> simp_all)

theorem binary_opens {sign : Option Char} {op : BinaryOp} {l : String} (r : String)
    (hl : op.isInfix = true → Opens sign l) (happlied : op.isInfix = false → sign = none) :
    Opens sign (op.code l r) := by
  cases op with
  | pow | range | isIn =>
    rw [happlied rfl]
    exact apply_opens (.text (by decide)) _
  | notIn =>
    rw [happlied rfl]
    exact (Opens.text (by decide)).append _
  | _ => exact between_opens (hl rfl) _ r

theorem unary_opens (op : UnaryOp) (operand : Expr) (code : String) :
    Opens (Expr.unary op operand).sign? (op.code code) := by
  cases op with
  | minus => exact .minus
  | plus => exact .plus
  | not | notIsset | notEmpty => exact (Opens.text (by decide)).append _
  | isset | empty => exact apply_opens (.text (by decide)) code

/-- Without extensions the code of an expression starts as its leftmost part does. -/
theorem expr_opening {env : Env} (hext : env.compiler.extensions = []) (e : Expr)
    (h : e.leftmost.settled env.compiler = true) : Opening e.leftmost.sign? (expr env e) := by
  cases e with
  | integer v => exact .hooked hext (.pure (int_opens v.toInt))
  | double v => exact .hooked hext (.pure (render_opens v))
  | str v =>
    exact .hooked hext (.pure (.plain String.toList_ofList (by decide : Text.apostrophe ∉ joining)))
  | bool v => exact .hooked hext (.pure (by cases v <;> exact .text (by decide)))
  | null => exact .hooked hext (.pure (.text (by decide)))
  | var name => exact .hooked hext (identifier_opening env name)
  | property object attr =>
    have hobject : Opening object.leftmost.sign? (objectCode env object (expr env object)) := by
      unfold objectCode
      split
      · exact identifier_opening env _
      · exact expr_opening hext object h
    exact .hooked hext (hobject.first fun o ho => .bind fun a => .pure ((ho.append "->").append a))
  | index object index =>
    refine .hooked hext ((expr_opening hext object h).first fun o ho => .bind fun i => .pure ?_)
    exact ((ho.append "[").append i).append "]"
  | binary op left right =>
    refine .hooked hext ?_
    cases hop : op.isInfix with
    | true =>
      rw [Expr.leftmost, if_pos hop] at h ⊢
      exact (expr_opening hext left h).first fun l hl => .bind fun r =>
        .pure (binary_opens r (fun _ => hl) fun hnot => absurd hop (by simp [hnot]))
    | false =>
      rw [Expr.leftmost, if_neg (by simp [hop])]
      exact .bind fun l => .bind fun r =>
        .pure (binary_opens r (fun hyes => absurd hop (by simp [hyes])) fun _ => rfl)
  | unary op operand => exact .hooked hext (.bind fun code => .pure (unary_opens op operand code))
  | call callee arguments =>
    refine .hooked hext (.bind fun given => ?_)
    unfold callCode
    split
    · rename_i name
      rw [Expr.leftmost, Expr.settled, Bool.and_eq_true, bne_iff_ne, Option.isNone_iff_eq_none] at h
      rw [callNamed, Compiler.handled_eq_none hext, h.2]
      dsimp only
      rw [if_neg h.1]
      exact .pure (call_opens name _)
    · rename_i hname
      rw [Expr.leftmost_call hname] at h ⊢
      exact (expr_opening hext callee h).first fun f hf => .pure (apply_opens hf _)
  | filter left filter => exact .hooked hext (.bind fun l => filterCode_opening hext h l _ _)
  | is left test =>
    refine .hooked hext ?_
    cases htest : test.isBuiltinTest with
    | true =>
      rw [Expr.leftmost, if_pos htest]
      exact .bind fun l => testCode_opening _ _ (fun hnot => absurd htest (by simp [hnot]))
        fun _ => rfl
    | false =>
      rw [Expr.leftmost, if_neg (by simp [htest])] at h ⊢
      exact (expr_opening hext left h).first fun l hl =>
        testCode_opening _ _ (fun _ => hl) fun hyes => absurd htest (by simp [hyes])
  | isNot left test =>
    exact .hooked hext (.bind fun l => .bind fun code =>
      .pure (((Opens.text (by decide)).append code).append _))
  | ternary condition yes no =>
    refine .hooked hext (.bind fun c => .bind fun y => .bind fun n => .pure ?_)
    exact ((((((Opens.text (by decide)).append c).append _).append y).append _).append n).append _
  | slice object start stop =>
    exact .hooked hext (.bind fun o => .bind fun s => .bind fun e =>
      .pure (apply_opens (.text (by decide)) _))
  | array items =>
    exact .hooked hext (.bind fun codes => .pure (((Opens.text (by decide)).append _).append _))
  | enclosed inner =>
    exact .hooked hext (.bind fun code => .pure (((Opens.text (by decide)).append code).append _))
  | resolved code => cases h
  | unknown => exact .hooked hext (.fail env _)

/-- A unary operator is written before the code of its operand. -/
theorem exec_unary {env : Env} {op : UnaryOp} {e : Expr}
    (hask : env.compiler.handled (·.expression (.unary op e)) = none) {s u : State} {x : String}
    (hx : exec (expr env e) { s with exprLevel := s.exprLevel + 1 } = (.ok x, u)) :
    exec (expr env (.unary op e)) s =
      (.ok (op.code x), { u with exprLevel := u.exprLevel - 1 }) := by
  change exec (hooked env e (lowered env e)) _ = _ at hx
  rw [expr, hooked, asked, hask, inExpr, exec_within]
  dsimp only
  rw [lowered, exec_bind, hx]
  rfl

/-- **Prefix operators.** Let `x` be the code of an expression as an operand. The code of the
operator on it is the operator's character before `x`. Its tokens are the operator's and then those
of `x` exactly if `x` starts with none of the texts that would continue the operator's token.
Without extensions, and if what the operand starts with is not left to a callable or given as code,
this is so exactly unless the part of the operand that is written first has the very sign of the
operator: a minus on a negative number or on a minus, a plus on a plus. -/
theorem prefixed_tokens (env : Env) (op : UnaryOp) (c : Char) (hop : op.mark? = some c) (e : Expr)
    (hask : env.compiler.handled (·.expression (.unary op e)) = none) (s u : State) (x : String)
    (hx : exec (expr env e) { s with exprLevel := s.exprLevel + 1 } = (.ok x, u)) :
    ∃ code, exec (expr env (.unary op e)) s = (.ok code, { u with exprLevel := u.exprLevel - 1 }) ∧
      code.toList = c :: x.toList ∧
      (Token.tokens code.toList = [c] :: Token.tokens x.toList ↔
        ∀ w ∈ Token.continuations c, ¬ w.toList <+: x.toList) ∧
      (env.compiler.extensions = [] → e.leftmost.settled env.compiler = true →
        (Token.tokens code.toList = [c] :: Token.tokens x.toList ↔ e.leftmost.sign? ≠ some c)) := by
  have hmark := UnaryOp.mem_marks hop
  have hcode := UnaryOp.toList_code hop x
  refine ⟨op.code x, exec_unary hask hx, hcode, ?_, fun hext hsettled => ?_⟩
  · rw [hcode]
    exact Token.tokens_mark_iff hmark x.toList
  · have hopens : Opens e.leftmost.sign? x := expr_opening hext e hsettled _ x u hx
    rw [hcode, Token.tokens_mark_iff hmark]
    exact hopens.joined_iff (fun d hd => sign?_eq_some hd) hmark

namespace Ledger

/-- An outermost template with nothing registered. -/
def env : Env := .outer Compiler.initial "ledger" fun _ _ => pure (.code "")

/-- A negative number plus a variable. -/
def balance : Expr := .binary .add (.integer (-5)) (.var "x")

end Ledger

/-- A minus is lost before a sum that starts with a negative number, and a plus is not. -/
theorem prefixed_tokens_ledger :
    (exec (expr Ledger.env (.unary .minus Ledger.balance)) (.initial false .empty)).1 =
      .ok "--5 + $x" ∧
      Token.tokens "--5 + $x".toList ≠ ['-'] :: Token.tokens "-5 + $x".toList ∧
      (exec (expr Ledger.env (.unary .plus Ledger.balance)) (.initial false .empty)).1 =
      .ok "+-5 + $x" ∧
      Token.tokens "+-5 + $x".toList = ['+'] :: Token.tokens "-5 + $x".toList := by
  have hbalance : exec (expr Ledger.env Ledger.balance)
      { State.initial false .empty with exprLevel := 1 } =
      (.ok "-5 + $x", { State.initial false .empty with exprLevel := 1 }) := by rfl
  have hsign : Ledger.balance.leftmost.sign? = some '-' := by decide
  obtain ⟨minus, hminus, hchars, -, hkept⟩ :=
    prefixed_tokens Ledger.env .minus '-' rfl Ledger.balance rfl
    (.initial false .empty) _ "-5 + $x" hbalance
  obtain ⟨plus, hplus, hchars', -, hkept'⟩ :=
    prefixed_tokens Ledger.env .plus '+' rfl Ledger.balance rfl
    (.initial false .empty) _ "-5 + $x" hbalance
  obtain rfl : minus = "--5 + $x" := String.toList_inj.1 (hchars.trans (by decide))
  obtain rfl : plus = "+-5 + $x" := String.toList_inj.1 (hchars'.trans (by decide))
  refine ⟨congrArg Prod.fst hminus, fun h => (hkept rfl rfl).1 h hsign, congrArg Prod.fst hplus, ?_⟩
  exact (hkept' rfl rfl).2 (by rw [hsign]; decide)

/-- Two minus signs are read as one decrement. -/
theorem negation_decrements :
    (exec (page Ledger.env [.mk (.echo (some (.unary .minus (.integer (-5))))) .unknown])
        (.initial false .empty)).1.toOption = some "<?= --5 ?>" ∧
      Token.tokens "--5".toList = ["--".toList, "5".toList] ∧
      Token.tokens "-5".toList = ["-".toList, "5".toList] :=
  ⟨by decide +kernel, by decide +kernel, by decide +kernel⟩

end Emit
end Stencil
