/-
# What code is generated for

Not every part of an expression is emitted. The name of an attribute or of a function stands for
itself, a filter is known by its name, and of a built-in test only the arguments are looked at.
`Expr.emitted` lists the parts that code is generated for. What else is asked of an expression is
read off this list: which names it looks up, and below that whether it uses the record of a loop
and whether it compiles at all.

What a bare name means depends on where it stands. As an operand it is a variable, which may be a
service of the view; it may be called as a function, or applied as a filter.

Key definitions: `Expr.emitted`, `Use`, `Expr.look?`, `Expr.uses`, `Expr.Allowed`, `Node.uses`.
Key theorems: `Expr.all_emitted`, `Expr.allowed_emitted`, `Expr.not_mem_uses`.
-/
import Stencil.Proofs.Tree

namespace Stencil

/-- The names of the built-in tests without arguments. -/
def Code.plainTests : List String := ["empty", "even", "odd", "numeric", "scalar", "iterable"]

/-- A built-in test is known by its name. -/
theorem Code.test?_isSome (name l : String) :
    (Code.test? name l).isSome = decide (name ∈ Code.plainTests) := by
  unfold Code.test?
  split
  case h_7 h₁ h₂ h₃ h₄ h₅ h₆ =>
    have hother : name ∉ Code.plainTests := by
      simp only [Code.plainTests, List.mem_cons, List.not_mem_nil, or_false, not_or]
      exact ⟨h₁, h₂, h₃, h₄, h₅, h₆⟩
    exact (decide_eq_false hother).symm
  all_goals rfl

/-! ### Parts that are emitted -/

namespace Expr

section
variable {α : Type}

/-- What belongs to an attribute or a callee, unless it is a bare name. -/
def unlessName (e : Expr) (parts : List α) : List α :=
  match e with
  | .var _ => []
  | _ => parts

/-- What belongs to the arguments of a filter, which has to have a name. -/
def ofFilter (filter : Expr) (operands : List α) : List α :=
  match filter with
  | .call (.var _) _ => operands
  | _ => []

/-- What belongs to a test: nothing for a built-in name, only the arguments for a built-in test
that takes some, and everything for an expression to compare with. -/
def ofTest (test : Expr) (operands parts : List α) : List α :=
  match test with
  | .var name => if name ∈ Code.plainTests then [] else parts
  | .call (.var name) _ => if name ∈ Code.operandTests then operands else parts
  | _ => parts

theorem mem_of_mem_unlessName {e : Expr} {parts : List α} {x : α} (h : x ∈ e.unlessName parts) :
    x ∈ parts := by
  cases e with
  | var name => cases h
  | _ => exact h

theorem mem_of_mem_ofFilter {e : Expr} {operands : List α} {x : α} (h : x ∈ e.ofFilter operands) :
    x ∈ operands := by
  unfold ofFilter at h
  split at h
  · exact h
  · cases h

theorem mem_of_mem_ofTest {test : Expr} {operands parts : List α} {x : α}
    (h : x ∈ test.ofTest operands parts) : x ∈ operands ∨ x ∈ parts := by
  unfold ofTest at h
  split at h
  · split at h
    · cases h
    · exact .inr h
  · split at h
    · exact .inl h
    · exact .inr h
  · exact .inr h

end

mutual

/-- The parts of an expression that code is generated for, first of all itself. -/
def emitted : Expr → List Expr
  | .property o a => .property o a :: (o.emitted ++ a.unlessName a.emitted)
  | .index o i => .index o i :: (o.emitted ++ i.emitted)
  | .binary op l r => .binary op l r :: (l.emitted ++ r.emitted)
  | .unary op e => .unary op e :: e.emitted
  | .call c as => .call c as :: (emittedArgs as ++ c.unlessName c.emitted)
  | .filter l f => .filter l f :: (l.emitted ++ f.ofFilter f.emittedOperands)
  | .is l t => .is l t :: (l.emitted ++ t.ofTest t.emittedOperands t.emitted)
  | .isNot l t => .isNot l t :: (l.emitted ++ t.ofTest t.emittedOperands t.emitted)
  | .ternary c y n => .ternary c y n :: (c.emitted ++ (y.emitted ++ n.emitted))
  | .slice o s e => .slice o s e :: (o.emitted ++ (emittedOption s ++ emittedOption e))
  | .array as => .array as :: emittedArgs as
  | .enclosed e => .enclosed e :: e.emitted
  | e => [e]

/-- The parts of arguments that code is generated for. -/
def emittedArgs : List Arg → List Expr
  | [] => []
  | ⟨e, _⟩ :: rest => e.emitted ++ emittedArgs rest

/-- The parts of the arguments of a call; other expressions have none. -/
def emittedOperands : Expr → List Expr
  | .call _ as => emittedArgs as
  | _ => []

/-- The parts of an expression, if there is one. -/
def emittedOption : Option Expr → List Expr
  | none => []
  | some e => e.emitted

end

section
variable {p : Expr → Bool}

mutual

/-- What holds of all parts of an expression holds of those that are emitted. -/
theorem all_emitted : ∀ e : Expr, e.all p = true → ∀ x ∈ e.emitted, p x = true
  | .property o a, h => by
    simp only [Expr.all, Bool.and_eq_true] at h
    simp only [emitted, List.forall_mem_cons, List.forall_mem_append]
    exact ⟨h.1.1, all_emitted o h.1.2, fun x hx => all_emitted a h.2 x (mem_of_mem_unlessName hx)⟩
  | .index l r, h | .binary _ l r, h => by
    simp only [Expr.all, Bool.and_eq_true] at h
    simp only [emitted, List.forall_mem_cons, List.forall_mem_append]
    exact ⟨h.1.1, all_emitted l h.1.2, all_emitted r h.2⟩
  | .unary _ e, h | .enclosed e, h => by
    simp only [Expr.all, Bool.and_eq_true] at h
    simp only [emitted, List.forall_mem_cons]
    exact ⟨h.1, all_emitted e h.2⟩
  | .call c as, h => by
    simp only [Expr.all, Bool.and_eq_true] at h
    simp only [emitted, List.forall_mem_cons, List.forall_mem_append]
    exact ⟨h.1.1, all_emittedArgs as h.2,
      fun x hx => all_emitted c h.1.2 x (mem_of_mem_unlessName hx)⟩
  | .filter l f, h => by
    simp only [Expr.all, Bool.and_eq_true] at h
    simp only [emitted, List.forall_mem_cons, List.forall_mem_append]
    exact ⟨h.1.1, all_emitted l h.1.2,
      fun x hx => all_emittedOperands f h.2 x (mem_of_mem_ofFilter hx)⟩
  | .is l t, h | .isNot l t, h => by
    simp only [Expr.all, Bool.and_eq_true] at h
    simp only [emitted, List.forall_mem_cons, List.forall_mem_append]
    refine ⟨h.1.1, all_emitted l h.1.2, fun x hx => ?_⟩
    exact (mem_of_mem_ofTest hx).elim (all_emittedOperands t h.2 x) (all_emitted t h.2 x)
  | .ternary c y n, h => by
    simp only [Expr.all, Bool.and_eq_true] at h
    simp only [emitted, List.forall_mem_cons, List.forall_mem_append]
    exact ⟨h.1.1.1, all_emitted c h.1.1.2, all_emitted y h.1.2, all_emitted n h.2⟩
  | .slice o s e, h => by
    simp only [Expr.all, Bool.and_eq_true] at h
    simp only [emitted, List.forall_mem_cons, List.forall_mem_append]
    exact ⟨h.1.1.1, all_emitted o h.1.1.2, all_emittedOption s h.1.2, all_emittedOption e h.2⟩
  | .array as, h => by
    simp only [Expr.all, Bool.and_eq_true] at h
    simp only [emitted, List.forall_mem_cons]
    exact ⟨h.1, all_emittedArgs as h.2⟩
  | .integer _, h | .double _, h | .str _, h | .bool _, h | .null, h | .var _, h | .resolved _, h
  | .unknown, h => by
    simp only [emitted, List.forall_mem_singleton]
    exact all_self h

theorem all_emittedArgs : ∀ as : List Arg, allArgs p as = true → ∀ x ∈ emittedArgs as, p x = true
  | [], _ => List.forall_mem_nil _
  | ⟨e, _⟩ :: rest, h => by
    simp only [allArgs, Bool.and_eq_true] at h
    simp only [emittedArgs, List.forall_mem_append]
    exact ⟨all_emitted e h.1, all_emittedArgs rest h.2⟩

theorem all_emittedOperands : ∀ e : Expr, e.all p = true → ∀ x ∈ e.emittedOperands, p x = true
  | .call _ as, h => by
    simp only [Expr.all, Bool.and_eq_true] at h
    exact all_emittedArgs as h.2
  | .integer _, _ | .double _, _ | .str _, _ | .bool _, _ | .null, _ | .var _, _ | .property .., _
  | .index .., _ | .binary .., _ | .unary .., _ | .filter .., _ | .is .., _ | .isNot .., _
  | .ternary .., _ | .slice .., _ | .array _, _ | .enclosed _, _ | .resolved _, _
  | .unknown, _ => by
    simp [emittedOperands]

theorem all_emittedOption :
    ∀ e : Option Expr, allOption p e = true → ∀ x ∈ emittedOption e, p x = true
  | none, _ => List.forall_mem_nil _
  | some e, h => all_emitted e h

end

end

end Expr

/-! ### Names that are looked up -/

/-- A name, and what it is looked up as. -/
inductive Use where
  | variable (name : String)
  | function (name : String)
  | filter (name : String)
  deriving DecidableEq

namespace Expr

/-- The name that an expression looks up itself, apart from its parts. -/
def look? : Expr → Option Use
  | .var name => some (.variable name)
  | .call (.var name) _ => some (.function name)
  | .filter _ (.var name) => some (.filter name)
  | .filter _ (.call (.var name) _) => some (.filter name)
  | _ => none

/-- The names that are looked up where the expression is emitted. -/
def uses (e : Expr) : List Use := e.emitted.filterMap look?

/-- A name is not used if no part of the expression looks it up. -/
theorem not_mem_uses {p : Expr → Bool} {u : Use}
    (hp : ∀ e : Expr, p e = true → e.look? ≠ some u) (e : Expr)
    (h : e.all p = true) : u ∉ e.uses := by
  intro hu
  obtain ⟨x, hx, hlook⟩ := List.mem_filterMap.1 hu
  exact hp x (all_emitted e h x hx) hlook

/-- All names that the parts look up are in `U`. -/
def Allowed (U : Use → Prop) (parts : List Expr) : Prop := ∀ x ∈ parts, ∀ u, x.look? = some u → U u

section
variable {U : Use → Prop}

theorem allowed_nil : Allowed U [] := List.forall_mem_nil _

theorem allowed_cons {e : Expr} {parts : List Expr} :
    Allowed U (e :: parts) ↔ (∀ u, e.look? = some u → U u) ∧ Allowed U parts := List.forall_mem_cons

theorem allowed_append {parts more : List Expr} :
    Allowed U (parts ++ more) ↔ Allowed U parts ∧ Allowed U more := List.forall_mem_append

theorem allowed_emitted {e : Expr} : Allowed U e.emitted ↔ ∀ u ∈ e.uses, U u := by
  constructor
  · intro h u hu
    obtain ⟨x, hx, hlook⟩ := List.mem_filterMap.1 hu
    exact h x hx u hlook
  · intro h x hx u hlook
    exact h u (List.mem_filterMap.2 ⟨x, hx, hlook⟩)

end

end Expr

/-- The names that are looked up in the expressions of a statement, outside its bodies. -/
def Stmt.uses (s : Stmt) : List Use := s.exprs.flatMap Expr.uses

/-- The names that are looked up in a list of nodes, at any depth. -/
def Node.uses (ns : List Node) : List Use := (Node.statements ns).flatMap Stmt.uses

end Stencil
