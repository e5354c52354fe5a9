/-
# Template statements

A template is a list of nodes. A node is a statement and the place in a
template file it comes from. Fields a statement cannot do without may still be
missing in a tree: that is noticed when the statement is emitted.

Key definitions:
* `Position`: file and line, both optional.
* `Stmt`, `Node`, `Template`.
* `Stmt.Kind`: which constructor a statement is made with.
* `Node.sameList`: equality of node lists that does not tell the two zeros apart.
-/
import Stencil.Template.Expr

namespace Stencil

/-- The place of a statement, as far as it is recorded. -/
structure Position where
  file : Option String
  line : Option UInt32
  deriving Repr, DecidableEq

namespace Position

/-- No file and no line. -/
def unknown : Position := ⟨none, none⟩

end Position

/-- One assignment of a `set` statement. -/
structure Assignment where
  target : Expr
  op : AssignOp
  value : Option Expr

/-- A parameter of a macro, perhaps with a default. -/
structure Parameter where
  name : String
  fallback : Option Expr

mutual

/-- A statement of a template. -/
inductive Stmt where
  | text (value : String)
  | echo (expr : Option Expr)
  | ifThen (condition : Option Expr) (body : List Node) (elseBody : Option (List Node))
  | elseIf (condition : Option Expr)
  | switchOn (subject : Option Expr) (cases : List Node)
  | caseOf (value : Option Expr)
  | caseDefault
  | forIn (target : String) (key : Option String) (iterable guard : Option Expr)
      (body : List Node)
  | forElse
  | assign (assignments : List Assignment)
  | block (name : String) (body : List Node)
  | extending (path : Option Expr)
  | including (path params : Option Expr)
  | macroDef (name : String) (params : List Parameter) (body : List Node)
  | evaluate (expr : Option Expr)
  | returning (expr : Option Expr)
  | autoescape (enabled : Option Bool) (body : List Node)
  | continueLoop
  | breakLoop
  | cached (key lifetime : Option Expr) (body : List Node)
  | unknown

/-- A statement and its place. -/
inductive Node where
  | mk (stmt : Stmt) (pos : Position)

end

/-- A template: its statements in order. -/
abbrev Template := List Node

namespace Stmt

/-- Which constructor a statement is made with. -/
inductive Kind where
  | text
  | echo
  | ifThen
  | elseIf
  | switchOn
  | caseOf
  | caseDefault
  | forIn
  | forElse
  | assign
  | block
  | extending
  | including
  | macroDef
  | evaluate
  | returning
  | autoescape
  | continueLoop
  | breakLoop
  | cached
  | unknown
  deriving Repr, DecidableEq

namespace Kind

/-- Every kind, in the order by which a serialized tree may number them. -/
def all : List Kind :=
  [.text, .echo, .ifThen, .elseIf, .switchOn, .caseOf, .caseDefault, .forIn, .forElse, .assign,
    .block, .extending, .including, .macroDef, .evaluate, .returning, .autoescape, .continueLoop,
    .breakLoop, .cached, .unknown]

/-- The name in a serialized tree. -/
def name : Kind → String
  | .text => "text"
  | .echo => "echo"
  | .ifThen => "if"
  | .elseIf => "else_if"
  | .switchOn => "switch"
  | .caseOf => "case"
  | .caseDefault => "default"
  | .forIn => "for"
  | .forElse => "else_for"
  | .assign => "set"
  | .block => "block"
  | .extending => "extends"
  | .including => "include"
  | .macroDef => "macro"
  | .evaluate => "do"
  | .returning => "return"
  | .autoescape => "autoescape"
  | .continueLoop => "continue"
  | .breakLoop => "break"
  | .cached => "cache"
  | .unknown => "unknown"

end Kind

/-- The kind of a statement. -/
def kind : Stmt → Kind
  | .text _ => .text
  | .echo _ => .echo
  | .ifThen .. => .ifThen
  | .elseIf _ => .elseIf
  | .switchOn .. => .switchOn
  | .caseOf _ => .caseOf
  | .caseDefault => .caseDefault
  | .forIn .. => .forIn
  | .forElse => .forElse
  | .assign _ => .assign
  | .block .. => .block
  | .extending _ => .extending
  | .including .. => .including
  | .macroDef .. => .macroDef
  | .evaluate _ => .evaluate
  | .returning _ => .returning
  | .autoescape .. => .autoescape
  | .continueLoop => .continueLoop
  | .breakLoop => .breakLoop
  | .cached .. => .cached
  | .unknown => .unknown

end Stmt

namespace Node

/-- The statement of a node. -/
def stmt : Node → Stmt
  | .mk s _ => s

/-- The place of a node. -/
def pos : Node → Position
  | .mk _ p => p

/-- A statement without a place. -/
def ofStmt (s : Stmt) : Node := .mk s .unknown

end Node

namespace Assignment

/-- Equality of assignment lists. -/
def sameList : List Assignment → List Assignment → Bool
  | [], [] => true
  | a :: as, b :: bs =>
    a.target.same b.target && a.op == b.op && Expr.sameOption a.value b.value && sameList as bs
  | _, _ => false

end Assignment

namespace Parameter

/-- Equality of parameter lists. -/
def sameList : List Parameter → List Parameter → Bool
  | [], [] => true
  | p :: ps, q :: qs =>
    p.name == q.name && Expr.sameOption p.fallback q.fallback && sameList ps qs
  | _, _ => false

end Parameter

mutual

/-- Equality of statements; doubles are compared as numbers. -/
def Stmt.same : Stmt → Stmt → Bool
  | .text s, .text t => s == t
  | .echo e, .echo f => Expr.sameOption e f
  | .ifThen c b e, .ifThen d g f =>
    Expr.sameOption c d && Node.sameList b g && Node.sameOption e f
  | .elseIf c, .elseIf d => Expr.sameOption c d
  | .switchOn e b, .switchOn f g => Expr.sameOption e f && Node.sameList b g
  | .caseOf e, .caseOf f => Expr.sameOption e f
  | .caseDefault, .caseDefault => true
  | .forIn t k i g b, .forIn u l j h c =>
    t == u && k == l && Expr.sameOption i j && Expr.sameOption g h && Node.sameList b c
  | .forElse, .forElse => true
  | .assign as, .assign bs => Assignment.sameList as bs
  | .block n b, .block m c => n == m && Node.sameList b c
  | .extending p, .extending q => Expr.sameOption p q
  | .including p a, .including q b => Expr.sameOption p q && Expr.sameOption a b
  | .macroDef n p b, .macroDef m q c => n == m && Parameter.sameList p q && Node.sameList b c
  | .evaluate e, .evaluate f => Expr.sameOption e f
  | .returning e, .returning f => Expr.sameOption e f
  | .autoescape e b, .autoescape f c => e == f && Node.sameList b c
  | .continueLoop, .continueLoop => true
  | .breakLoop, .breakLoop => true
  | .cached k l b, .cached m n c =>
    Expr.sameOption k m && Expr.sameOption l n && Node.sameList b c
  | .unknown, .unknown => true
  | _, _ => false

/-- Equality of nodes: same statement, same place. -/
def Node.same : Node → Node → Bool
  | .mk s p, .mk t q => Stmt.same s t && p == q

/-- Equality of node lists. -/
def Node.sameList : List Node → List Node → Bool
  | [], [] => true
  | a :: as, b :: bs => Node.same a b && Node.sameList as bs
  | _, _ => false

/-- Equality of optional node lists. -/
def Node.sameOption : Option (List Node) → Option (List Node) → Bool
  | none, none => true
  | some as, some bs => Node.sameList as bs
  | _, _ => false

end

end Stencil
