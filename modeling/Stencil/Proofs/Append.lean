/-
# Pages one after another

Outside all loops a statement leaves nothing behind that the code of the next one
depends on, but for the names of its macros. So a page may be cut between any two of
its statements: it compiles if both parts do and no macro is in both, and to the code
of the one part followed by that of the other.

Key theorems: `Plain.nodes?_append`, `Compiler.pageOf_append`,
`Compiler.compileSource_append`.
-/
import Stencil.Proofs.Carried
import Stencil.Proofs.Pages

namespace Stencil

theorem Node.links_append (xs ys : List Node) :
    Node.links (xs ++ ys) = Node.links xs ++ Node.links ys := by
  rw [links, Node.statements_append, List.filterMap_append]
  rfl

theorem Node.macroNames_append (xs ys : List Node) :
    Node.macroNames (xs ++ ys) = Node.macroNames xs ++ Node.macroNames ys := by
  rw [macroNames, Node.statements_append, List.filterMap_append]
  rfl

theorem Node.usesLoop_append (xs ys : List Node) :
    Node.usesLoop (xs ++ ys) = (Node.usesLoop xs || Node.usesLoop ys) := by
  induction xs with
  | nil => rfl
  | cons n xs ih =>
    obtain ⟨s, pos⟩ := n
    rw [List.cons_append, Node.usesLoop, Node.usesLoop, ih, Bool.or_assoc]

/-- The code of two lists is that of the first followed by that of the second. What the
second knows of the first is whether it has used the record of the loop they are in. -/
theorem Plain.nodes?_append (S : Site) (xs ys : List Node) : ∀ k : Spot,
    nodes? S k (xs ++ ys) = do
      let code ← nodes? S k xs
      let more ← nodes? S (k.using (Node.usesLoop xs)) ys
      return code ++ more := by
  induction xs with
  | nil =>
    intro k
    simp [nodes?, Node.usesLoop]
  | cons n xs ih =>
    intro k
    obtain ⟨s, pos⟩ := n
    rw [List.cons_append, nodes?, nodes?, ih, Node.usesLoop, Spot.using_using]
    simp only [Option.bind_eq_bind, Option.pure_def, Option.bind_assoc, Option.bind_some,
      String.append_assoc]

namespace Compiler

section
variable {c : Compiler} {source : String} {xs ys : List Node}

/-- A page in two parts. Outside all loops the second part knows nothing of the first,
so each may be compiled on its own. -/
theorem pageOf_append (hext : c.extensions = []) (hxs : Node.links xs = [])
    (hys : Node.links ys = []) (d d₁ d₂ : Disk) (code : String) :
    c.pageOf source d (xs ++ ys) = .ok code ↔
      ∃ a b, c.pageOf source d₁ xs = .ok a ∧ c.pageOf source d₂ ys = .ok b ∧
        (∀ name ∈ Node.macroNames xs, name ∉ Node.macroNames ys) ∧ code = a ++ b := by
  have hlinks : Node.links (xs ++ ys) = [] := by rw [Node.links_append, hxs, hys]; rfl
  rw [pageOf_eq_ok_iff hext hlinks, Plain.nodes?_append, Emit.using_outermost,
    Node.macroNames_append, List.nodup_append]
  constructor
  · rintro ⟨hcode, hnodupx, hnodupy, hapart⟩
    obtain ⟨a, ha, hrest⟩ := Option.bind_eq_some_iff.1 hcode
    obtain ⟨b, hb, hab⟩ := Option.bind_eq_some_iff.1 hrest
    exact ⟨a, b, (pageOf_eq_ok_iff hext hxs).2 ⟨ha, hnodupx⟩,
      (pageOf_eq_ok_iff hext hys).2 ⟨hb, hnodupy⟩,
      fun name hx hy => hapart name hx name hy rfl, (Option.some.inj hab).symm⟩
  · rintro ⟨a, b, ha, hb, hapart, rfl⟩
    obtain ⟨ha, hnodupx⟩ := (pageOf_eq_ok_iff hext hxs).1 ha
    obtain ⟨hb, hnodupy⟩ := (pageOf_eq_ok_iff hext hys).1 hb
    refine ⟨?_, hnodupx, hnodupy, fun name hx other hy he => hapart name hx (he ▸ hy)⟩
    rw [ha, hb]
    rfl

/-- What a page compiles to from memory is code. -/
theorem compileSource_page_eq_ok_iff {d : Disk} {text : String} {tree : Template} {out : Output}
    (hparse : c.parse text source = .ok tree) :
    (exec (c.compileSource text source .page) d).1 = .ok out ↔
      ∃ code, c.pageOf source d tree = .ok code ∧ out = .code code := by
  rw [exec_compileSource_page hparse]
  cases c.pageOf source d tree with
  | error e => simp [Except.map]
  | ok code => simp [Except.map, eq_comm]

/-- Two pages that extend and include nothing, one after the other: they compile if each
of them does on its own, whatever is on the disk, and no macro is defined in both. The
code is that of the first followed by that of the second. -/
theorem compileSource_append (source first second both : String) (hext : c.extensions = [])
    (hfirst : c.parse first source = .ok xs) (hsecond : c.parse second source = .ok ys)
    (hboth : c.parse both source = .ok (xs ++ ys)) (hxs : Node.links xs = [])
    (hys : Node.links ys = []) (d d₁ d₂ : Disk) (out : Output) :
    (exec (c.compileSource both source .page) d).1 = .ok out ↔
      ∃ a b, (exec (c.compileSource first source .page) d₁).1 = .ok (.code a) ∧
        (exec (c.compileSource second source .page) d₂).1 = .ok (.code b) ∧
        (∀ name ∈ Node.macroNames xs, name ∉ Node.macroNames ys) ∧ out = .code (a ++ b) := by
  simp only [compileSource_page_eq_ok_iff hfirst, compileSource_page_eq_ok_iff hsecond,
    compileSource_page_eq_ok_iff hboth, pageOf_append hext hxs hys d d₁ d₂, Output.code.injEq]
  constructor
  · rintro ⟨code, ⟨a, b, ha, hb, hapart, rfl⟩, rfl⟩
    exact ⟨a, b, ⟨a, ha, rfl⟩, ⟨b, hb, rfl⟩, hapart, rfl⟩
  · rintro ⟨a, b, ⟨a, ha, rfl⟩, ⟨b, hb, rfl⟩, hapart, rfl⟩
    exact ⟨_, ⟨a, b, ha, hb, hapart, rfl⟩, rfl⟩

end

end Compiler

namespace Ledger

/-- A macro inside of a loop whose record is used. -/
def head : Template :=
  [.mk (.forIn "x" none (some (.var "xs")) none
      [.mk (.macroDef "cell" []
        [.mk (.echo (some (.property (.var "loop") (.var "index")))) .unknown]) .unknown]) .unknown]

/-- A loop with a branch of its own, and a macro inside of a block. -/
def tail : Template :=
  [.mk (.forIn "y" none (some (.var "ys")) none [.mk .forElse .unknown,
    .mk (.text "none") .unknown])
      .unknown,
    .mk (.block "foot" [.mk (.macroDef "sum" [] [.mk (.text "0") .unknown]) .unknown]) .unknown]

def compiler : Compiler :=
  { Compiler.initial with
    parse := fun text _ => .ok (if text = "head" then head else if text = "tail" then tail
      else if text = "both" then head ++ tail else head ++ head) }

end Ledger

/-- The two parts compile one after the other, and the first does not compile after itself. -/
theorem Compiler.compileSource_append_ledger :
    (∃ a b, (exec (Ledger.compiler.compileSource "head" "x" .page) .empty).1 = .ok (.code a) ∧
      (exec (Ledger.compiler.compileSource "tail" "x" .page) .empty).1 = .ok (.code b) ∧
      (exec (Ledger.compiler.compileSource "both" "x" .page) .empty).1 = .ok (.code (a ++ b))) ∧
    ∀ out, (exec (Ledger.compiler.compileSource "twice" "x" .page) .empty).1 ≠ .ok out := by
  have hhead : Node.links Ledger.head = [] := by decide +kernel
  have htail : Node.links Ledger.tail = [] := by decide +kernel
  refine ⟨?_, fun out hout => ?_⟩
  · obtain ⟨a, ha⟩ : ∃ a, Plain.nodes? (Ledger.compiler.site "x") (.outermost false) Ledger.head =
      some a :=
      Option.isSome_iff_exists.1 (by decide +kernel)
    obtain ⟨b, hb⟩ : ∃ b, Plain.nodes? (Ledger.compiler.site "x") (.outermost false) Ledger.tail =
      some b :=
      Option.isSome_iff_exists.1 (by decide +kernel)
    have hfirst : (exec (Ledger.compiler.compileSource "head" "x" .page) .empty).1 =
        .ok (.code a) :=
      (compileSource_eq_ok_iff rfl rfl hhead).2 ⟨ha, by decide +kernel⟩
    have hsecond : (exec (Ledger.compiler.compileSource "tail" "x" .page) .empty).1 =
        .ok (.code b) :=
      (compileSource_eq_ok_iff rfl rfl htail).2 ⟨hb, by decide +kernel⟩
    have hboth := compileSource_append
      (c := Ledger.compiler) "x" "head" "tail" "both" rfl rfl rfl rfl
      hhead htail .empty .empty .empty
    exact ⟨a, b, hfirst, hsecond, (hboth _).2 ⟨a, b, hfirst, hsecond, by decide +kernel, rfl⟩⟩
  · have htwice := compileSource_append
      (c := Ledger.compiler) "x" "head" "head" "twice" rfl rfl rfl rfl
      hhead hhead .empty .empty .empty
    obtain ⟨_, _, _, _, hapart, _⟩ := (htwice out).1 hout
    exact hapart "cell" (by decide +kernel) (by decide +kernel)

end Stencil
