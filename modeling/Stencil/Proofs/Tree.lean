/-
# The statements of a tree

Conditions on templates speak of every statement of a tree, however deep it
stands, and of every part of its expressions. This module lists the statements
in the order they are met.

Key definitions:
* `Node.statements`: the statements of a list of nodes and of all bodies in it.
* `Node.links`: the templates a list of nodes names by literals.
* `Node.macroNames`: the macros it defines.
* `Stmt.exprs`, `Expr.all`: the expressions of a statement, and a test of all their parts.
* `Node.plug`: the nodes with a statement in place of each print of the parent's block.
-/
import Stencil.Emit.Stmt

namespace Stencil

mutual

/-- A statement and those in its bodies. -/
def Stmt.statements : Stmt → List Stmt
  | .ifThen c b e => .ifThen c b e :: (Node.statements b ++ Node.statementsOption e)
  | .switchOn e b => .switchOn e b :: Node.statements b
  | .forIn t k i g b => .forIn t k i g b :: Node.statements b
  | .block n b => .block n b :: Node.statements b
  | .macroDef n p b => .macroDef n p b :: Node.statements b
  | .autoescape e b => .autoescape e b :: Node.statements b
  | .cached k l b => .cached k l b :: Node.statements b
  | s => [s]

/-- The statements of a list of nodes, at any depth. -/
def Node.statements : List Node → List Stmt
  | [] => []
  | .mk s _ :: rest => Stmt.statements s ++ Node.statements rest

/-- The statements of an optional list of nodes. -/
def Node.statementsOption : Option (List Node) → List Stmt
  | none => []
  | some ns => Node.statements ns

end

/-- The template a statement names by a literal, and the mode it is compiled in. -/
def Stmt.link? : Stmt → Option (String × Mode)
  | .extending (some (.str path)) => some (path, .layout)
  | .including (some (.str path)) none => some (path, .page)
  | _ => none

/-- The templates a statement and its bodies name by literals. -/
def Stmt.links (s : Stmt) : List (String × Mode) := s.statements.filterMap Stmt.link?

/-- The templates a list of nodes names by literals. -/
def Node.links (ns : List Node) : List (String × Mode) := (Node.statements ns).filterMap Stmt.link?

@[simp] theorem Node.links_nil : Node.links [] = [] := rfl

@[simp] theorem Node.links_cons (s : Stmt) (pos : Position) (rest : List Node) :
    Node.links (.mk s pos :: rest) = s.links ++ Node.links rest := by
  simp [Node.links, Stmt.links, Node.statements]

theorem Stmt.links_ifThen (c : Option Expr) (b : List Node) (e : Option (List Node)) :
    (Stmt.ifThen c b e).links = Node.links b ++ (Node.statementsOption e).filterMap Stmt.link? := by
  show (Node.statements b ++ Node.statementsOption e).filterMap Stmt.link? = _
  rw [List.filterMap_append]
  rfl

/-- Nodes that name no template have no statement that does. -/
theorem Node.link?_of_links {ns : List Node} (h : Node.links ns = []) {x : Stmt}
    (hx : x ∈ Node.statements ns) : x.link? = none := List.filterMap_eq_nil_iff.1 h x hx

/-- The macro a statement defines. -/
def Stmt.macroName? : Stmt → Option String
  | .macroDef name _ _ => some name
  | _ => none

/-- The macros a statement and its bodies define, in order. -/
def Stmt.macroNames (s : Stmt) : List String := s.statements.filterMap Stmt.macroName?

/-- The macros a list of nodes defines, in order. -/
def Node.macroNames (ns : List Node) : List String :=
  (Node.statements ns).filterMap Stmt.macroName?

/-- The macros that nodes define, if there are any. -/
def Node.macroNamesOption (ns : Option (List Node)) : List String :=
  (Node.statementsOption ns).filterMap Stmt.macroName?

@[simp] theorem Node.macroNames_nil : Node.macroNames [] = [] := rfl

@[simp] theorem Node.macroNames_cons (s : Stmt) (pos : Position) (rest : List Node) :
    Node.macroNames (.mk s pos :: rest) = s.macroNames ++ Node.macroNames rest := by
  simp [Node.macroNames, Stmt.macroNames, Node.statements]

theorem Stmt.macroNames_ifThen (c : Option Expr) (b : List Node) (e : Option (List Node)) :
    (Stmt.ifThen c b e).macroNames = Node.macroNames b ++ Node.macroNamesOption e := by
  show (Node.statements b ++ Node.statementsOption e).filterMap Stmt.macroName? = _
  rw [List.filterMap_append]
  rfl

theorem Stmt.mem_statements (s : Stmt) : s ∈ s.statements := by
  cases s <;> simp [Stmt.statements]

/-- The statement is a block. -/
def Stmt.isBlock : Stmt → Bool
  | .block .. => true
  | _ => false

theorem Stmt.eq_block {s : Stmt} (h : s.isBlock = true) : ∃ name body, s = .block name body := by
  cases s with
  | block name body => exact ⟨name, body, rfl⟩
  | _ => cases h

mutual

/-- The test holds of the expression and of all its parts. -/
def Expr.all (p : Expr → Bool) : Expr → Bool
  | .property o a => p (.property o a) && o.all p && a.all p
  | .index o i => p (.index o i) && o.all p && i.all p
  | .binary op l r => p (.binary op l r) && l.all p && r.all p
  | .unary op e => p (.unary op e) && e.all p
  | .call c as => p (.call c as) && c.all p && Expr.allArgs p as
  | .filter l f => p (.filter l f) && l.all p && f.all p
  | .is l t => p (.is l t) && l.all p && t.all p
  | .isNot l t => p (.isNot l t) && l.all p && t.all p
  | .ternary c y n => p (.ternary c y n) && c.all p && y.all p && n.all p
  | .slice o s e => p (.slice o s e) && o.all p && Expr.allOption p s && Expr.allOption p e
  | .array as => p (.array as) && Expr.allArgs p as
  | .enclosed e => p (.enclosed e) && e.all p
  | e => p e

/-- The test holds of all parts of the arguments. -/
def Expr.allArgs (p : Expr → Bool) : List Arg → Bool
  | [] => true
  | ⟨e, _⟩ :: rest => e.all p && Expr.allArgs p rest

/-- The test holds of all parts of the expression, if there is one. -/
def Expr.allOption (p : Expr → Bool) : Option Expr → Bool
  | none => true
  | some e => e.all p

end

theorem Expr.all_self {p : Expr → Bool} {e : Expr} (h : e.all p = true) : p e = true := by
  cases e <;> simp only [Expr.all, Bool.and_eq_true] at h <;> simp only [h]

mutual

/-- A test that always holds holds of all parts. -/
theorem Expr.all_of_forall {p : Expr → Bool} (h : ∀ e, p e = true) : ∀ e : Expr, e.all p = true
  | .property o a | .index o a => by
    simp [Expr.all, h, Expr.all_of_forall h o, Expr.all_of_forall h a]
  | .binary _ l r | .filter l r | .is l r | .isNot l r => by
    simp [Expr.all, h, Expr.all_of_forall h l, Expr.all_of_forall h r]
  | .unary _ e | .enclosed e => by simp [Expr.all, h, Expr.all_of_forall h e]
  | .call c as => by simp [Expr.all, h, Expr.all_of_forall h c, Expr.allArgs_of_forall h as]
  | .ternary c y n => by
    simp [Expr.all, h, Expr.all_of_forall h c, Expr.all_of_forall h y, Expr.all_of_forall h n]
  | .slice o s e => by
    simp [Expr.all, h, Expr.all_of_forall h o, Expr.allOption_of_forall h s,
      Expr.allOption_of_forall h e]
  | .array as => by simp [Expr.all, h, Expr.allArgs_of_forall h as]
  | .integer _ | .double _ | .str _ | .bool _ | .null | .var _ | .resolved _ | .unknown => by
    simp [Expr.all, h]

theorem Expr.allArgs_of_forall {p : Expr → Bool} (h : ∀ e, p e = true) :
    ∀ as : List Arg, Expr.allArgs p as = true
  | [] => rfl
  | ⟨e, _⟩ :: rest => by simp [Expr.allArgs, Expr.all_of_forall h e, Expr.allArgs_of_forall h rest]

theorem Expr.allOption_of_forall {p : Expr → Bool} (h : ∀ e, p e = true) :
    ∀ e : Option Expr, Expr.allOption p e = true
  | none => rfl
  | some e => Expr.all_of_forall h e

end

/-- The expressions that a statement holds itself, outside its bodies. -/
def Stmt.exprs : Stmt → List Expr
  | .echo e => e.toList
  | .ifThen c _ _ => c.toList
  | .elseIf c => c.toList
  | .switchOn e _ => e.toList
  | .caseOf e => e.toList
  | .forIn _ _ i g _ => i.toList ++ g.toList
  | .assign as => as.flatMap fun a => a.target :: a.value.toList
  | .extending e => e.toList
  | .including e params => e.toList ++ params.toList
  | .macroDef _ ps _ => ps.flatMap fun p => p.fallback.toList
  | .evaluate e => e.toList
  | .returning e => e.toList
  | .cached k l _ => k.toList ++ l.toList
  | _ => []

/-! ### Printing the parent's block -/

mutual

/-- The statement with `p`, if there is one, in place of each print of the parent's
block. -/
def Stmt.plug (p : Option Stmt) : Stmt → Stmt
  | .echo (some e) => if e.isSuper then p.getD (.echo (some e)) else .echo (some e)
  | .ifThen c b e => .ifThen c (Node.plug p b) (Node.plugOption p e)
  | .switchOn e b => .switchOn e (Node.plug p b)
  | .forIn t k i g b => .forIn t k i g (Node.plug p b)
  | .block n b => .block n (Node.plug p b)
  | .macroDef n ps b => .macroDef n ps (Node.plug p b)
  | .autoescape e b => .autoescape e (Node.plug p b)
  | .cached k l b => .cached k l (Node.plug p b)
  | s => s

/-- The nodes with `p` in place of each print of the parent's block. -/
def Node.plug (p : Option Stmt) : List Node → List Node
  | [] => []
  | .mk s pos :: rest => .mk (s.plug p) pos :: Node.plug p rest

/-- The nodes, if there are any, with `p` in place of each print of the parent's
block. -/
def Node.plugOption (p : Option Stmt) : Option (List Node) → Option (List Node)
  | none => none
  | some ns => some (Node.plug p ns)

end

mutual

theorem Stmt.plug_none : ∀ s : Stmt, s.plug none = s
  | .echo (some e) => by simp [Stmt.plug]
  | .ifThen _ b e => by simp [Stmt.plug, Node.plug_none b, Node.plugOption_none e]
  | .switchOn _ b => by simp [Stmt.plug, Node.plug_none b]
  | .forIn _ _ _ _ b => by simp [Stmt.plug, Node.plug_none b]
  | .block _ b => by simp [Stmt.plug, Node.plug_none b]
  | .macroDef _ _ b => by simp [Stmt.plug, Node.plug_none b]
  | .autoescape _ b => by simp [Stmt.plug, Node.plug_none b]
  | .cached _ _ b => by simp [Stmt.plug, Node.plug_none b]
  | .text _ | .echo none | .elseIf _ | .caseOf _ | .caseDefault | .forElse | .assign _
  | .extending _ | .including .. | .evaluate _ | .returning _ | .continueLoop | .breakLoop
  | .unknown => by simp [Stmt.plug]

/-- With nothing to put in place, the nodes stay as they are. -/
theorem Node.plug_none : ∀ ns : List Node, Node.plug none ns = ns
  | [] => rfl
  | .mk s _ :: rest => by simp [Node.plug, Stmt.plug_none s, Node.plug_none rest]

theorem Node.plugOption_none : ∀ ns : Option (List Node), Node.plugOption none ns = ns
  | none => rfl
  | some ns => by simp [Node.plugOption, Node.plug_none ns]

end

/-- Replacing prints does not make a branch for nothing to loop over. -/
theorem Node.any_isForElse_plug {p : Option Stmt} (hp : p ≠ some .forElse) :
    ∀ ns : List Node, (Node.plug p ns).any Node.isForElse = ns.any Node.isForElse
  | [] => rfl
  | .mk s pos :: rest => by
    have hs : (Node.mk (s.plug p) pos).isForElse = (Node.mk s pos).isForElse := by
      cases s with
      | echo e =>
        cases e with
        | none => rfl
        | some e =>
          simp only [Stmt.plug]
          split
          · cases p with
            | none => rfl
            | some r =>
              cases r with
              | forElse => exact absurd rfl hp
              | _ => rfl
          · rfl
      | _ => simp [Stmt.plug, Node.isForElse]
    simp only [Node.plug, List.any_cons, hs, Node.any_isForElse_plug hp rest]

end Stencil
