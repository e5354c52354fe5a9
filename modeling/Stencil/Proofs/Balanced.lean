/-
# Generated text is well formed

A page that compiles is text with sections of code in it. Each section is closed,
its literals end and its brackets match, and each brace that is opened in one
section is closed in this or a later one. Braces need care because different
statements open and close them: a further condition closes the branch before it,
a branch for nothing to loop over closes the loop and its guard, and the body of a
`switch` is changed after it has been generated.

Key definitions: `Scan.Moves`, `Stmt.Regular`, `Plain.Steady`.
Key theorems: `Scan.Moves.append`, `Code.Loop.code_moves`, `Plain.stmt_steady`,
`Compiler.compileSource_balanced`.
-/
import Stencil.Proofs.Pages
import Stencil.Proofs.Sealed

namespace Stencil
namespace Scan

/-- From plain text to plain text: where `a` braces are open, `b` are open afterwards,
and those further out stay as they are. -/
def Moves (a b : Nat) (text : String) : Prop :=
  ∀ depth p, p.Calm → ∃ q : Phase, q.Calm ∧ Reads ⟨p, ⟨[], depth + a⟩⟩ text ⟨q, ⟨[], depth + b⟩⟩

namespace Moves

variable {a b c : Nat} {s t code : String}

theorem empty (a : Nat) : Moves a a "" := fun _ p hp => ⟨p, hp, rfl⟩

theorem append (hs : Moves a b s) (ht : Moves b c t) : Moves a c (s ++ t) := by
  intro depth p hp
  obtain ⟨q, hq, hs⟩ := hs depth p hp
  obtain ⟨r, hr, ht⟩ := ht depth q hq
  exact ⟨r, hr, hs.append ht⟩

/-- More braces may be open further out. -/
theorem under (h : Moves a b s) (k : Nat) : Moves (k + a) (k + b) s := by
  intro depth p hp
  obtain ⟨q, hq, h⟩ := h (depth + k) p hp
  rw [Nat.add_assoc, Nat.add_assoc] at h
  exact ⟨q, hq, h⟩

end Moves

/-! ### Sections -/

theorem reads_open {p : Phase} (hp : p.Calm) (d : Nat) :
    Reads ⟨p, ⟨[], d⟩⟩ "<?php" (inside [] d) := by
  rcases hp with rfl | rfl <;> rfl

theorem reads_sect {p : Phase} (hp : p.Calm) {d d' : Nat} {code : String}
    (h : Reads (inside [] d) code (inside [] d')) :
    Reads ⟨p, ⟨[], d⟩⟩ (Code.sect code) ⟨.text, ⟨[], d'⟩⟩ :=
  .append (.append (.append (b := " ") (reads_open hp d) rfl) h) rfl

section
variable {a b : Nat} {code : String}

theorem Moves.sect (h : ∀ d, Reads (inside [] (d + a)) code (inside [] (d + b))) :
    Moves a b (Code.sect code) := fun d _ hp => ⟨.text, .inl rfl, reads_sect hp (h d)⟩

theorem Moves.sect_sealed (h : Sealed code) : Moves 0 0 (Code.sect code) := .sect fun d => h [] d

theorem Moves.print (h : Sealed code) : Moves 0 0 (Code.print code) := by
  intro d p hp
  have hopen : Reads ⟨p, ⟨[], d⟩⟩ "<?= " (inside [] d) := by
    rcases hp with rfl | rfl <;> rfl
  exact ⟨.text, .inl rfl, .append (.append hopen (h [] d)) rfl⟩

theorem ifOpen_moves (h : Sealed code) : Moves 0 1 (Code.ifOpen code) :=
  .sect fun d => Reads.append (.append rfl (h _ d)) rfl

theorem elseIf_moves (h : Sealed code) : Moves 1 1 (Code.elseIf code) :=
  .sect fun d => Reads.append (.append rfl (h _ d)) rfl

theorem elseOpen_moves : Moves 1 1 Code.elseOpen := .sect fun _ => rfl

theorem close_moves : Moves 1 0 Code.close := .sect fun _ => rfl

end

/-! ### Plain text -/

/-- Text without the start of a mark. -/
theorem foldlM_text (n : Nesting) : ∀ {cs : List Char} {p : Phase}, p.Calm → ¬ ['<', '?'] <:+: cs →
    (p = .angle → cs.head? ≠ some '?') → ∃ q : Phase, q.Calm ∧ cs.foldlM step ⟨p, n⟩ = some ⟨q, n⟩
  | [], p, hp, _, _ => ⟨p, hp, rfl⟩
  | c :: cs, p, hp, hfree, hhead => by
    have hrest : ¬ ['<', '?'] <:+: cs := fun h => hfree (h.trans (List.suffix_cons c cs).isInfix)
    have hnext : c = '<' → cs.head? ≠ some '?' := by
      rintro rfl h
      obtain ⟨rest, rfl⟩ : ∃ rest, cs = '?' :: rest := by
        cases cs with
        | nil => cases h
        | cons d rest => exact ⟨rest, by rw [Option.some.inj h]⟩
      exact hfree ⟨[], rest, rfl⟩
    obtain ⟨q, hq, hstep, hangle⟩ : ∃ q : Phase, q.Calm ∧ step ⟨p, n⟩ c = some ⟨q, n⟩ ∧
        (q = .angle → c = '<') := by
      by_cases hc : c = '<'
      · refine ⟨.angle, .inr rfl, ?_, fun _ => hc⟩
        rcases hp with rfl | rfl <;> rw [hc] <;> rfl
      · refine ⟨.text, .inl rfl, ?_, nofun⟩
        rcases hp with rfl | rfl
        · simp [step, hc]
        · have : c ≠ '?' := fun h => hhead rfl (by rw [h]; rfl)
          simp [step, hc, this]
    obtain ⟨r, hr, hread⟩ := foldlM_text n hq hrest fun h => hnext (hangle h)
    refine ⟨r, hr, ?_⟩
    rw [List.foldlM_cons, hstep]
    exact hread

theorem text_moves {text : String} (hfree : ¬ ['<', '?'] <:+: text.toList)
    (hhead : text.toList.head? ≠ some '?') : Moves 0 0 text :=
  fun _ _ hp => foldlM_text _ hp hfree fun _ => hhead

/-- Code that ends with a part in parentheses. -/
theorem Sealed.group {code opening part closing : String} (h : Sealed code)
    (hopen : ∀ pending d, Reads (inside pending d) opening (inside (')' :: pending) d))
    (hpart : Sealed part)
    (hclose : ∀ pending d, Reads (inside (')' :: pending) d) closing (inside pending d)) :
    Sealed (code ++ opening ++ part ++ closing) := fun pending d =>
  Reads.append (.append (.append (h pending d) (hopen pending d)) (hpart _ d)) (hclose pending d)

/-- Code for what may be left out. -/
theorem Sealed.option {o : Option String} {f : String → String} {z : String} :
    (∀ x, o = some x → Sealed (f x)) → Sealed z → Sealed (match o with
      | some x => f x
      | none => z) := by
  intro hsome hnone
  cases o with
  | none => exact hnone
  | some x => exact hsome x rfl

end Scan

open Scan (Reads Sealed Moves inside)

/-! ### Loops -/

namespace Code.Loop

theorem var_sealed {stem name : String} (hstem : Sealed stem)
    (hname : name.toList.all Scan.isNeutral = true) : Sealed (var stem name) :=
  .append (.append (.of_neutral rfl) hstem) (.of_neutral hname)

variable {l : Loop} (hstem : Sealed l.stem)
include hstem

theorem prologue_moves (hsource : Sealed l.source) : Moves 0 0 l.prologue := by
  have hit : Sealed (var l.stem "iterator") := var_sealed hstem rfl
  have hincr : Sealed (var l.stem "incr") := var_sealed hstem rfl
  have hrecord : Sealed (var l.stem "loop") := var_sealed hstem rfl
  refine .sect_sealed ?_
  -- one statement after another, from the last one on
  refine .append (.append (.append (.append ?_ hrecord) (.of_neutral rfl)) hrecord)
    (.of_neutral rfl)
  refine .append (.append (.append (.append ?_ hrecord) (.of_neutral rfl)) hrecord)
    (.of_neutral rfl)
  refine .append (.append ?_ hrecord) (.of_neutral rfl)
  refine .append (.append ?_ hrecord) (.of_neutral rfl)
  refine .group (.append ?_ hrecord) (fun _ _ => rfl) hit fun _ _ => rfl
  refine .append (.append (.append (.append ?_ hrecord) (.of_neutral rfl)) hrecord)
    (.of_neutral rfl)
  refine .append (.append ?_ hrecord) fun _ _ => rfl
  refine .append (.append ?_ hincr) (.of_neutral rfl)
  exact .append (.append (.append hit (.of_neutral rfl)) hsource) (.of_neutral rfl)

theorem refresh_moves : Moves 0 0 l.refresh := by
  have hincr : Sealed (var l.stem "incr") := var_sealed hstem rfl
  have hrecord : Sealed (var l.stem "loop") := var_sealed hstem rfl
  have hlast {code : String} (h : Sealed code) :
      Sealed (code ++ "->last = (" ++ var l.stem "incr" ++ " == (" ++ var l.stem "loop" ++
        "->length - 1));") :=
    fun pending d =>
      Reads.append (.append (.append (.append (.append (h pending d) rfl) (hincr _ d)) rfl)
      (hrecord _ d)) rfl
  refine .sect_sealed (hlast ?_)
  refine .append (.group (.append (.append (.append ?_ hrecord) (.of_neutral rfl)) hrecord)
    (fun _ _ => rfl) hincr fun _ _ => rfl) hrecord
  refine .append
    (.append (.append (.append (.append (.append ?_ hrecord) (.of_neutral rfl)) hrecord)
    (.of_neutral rfl)) hincr) (.of_neutral rfl)
  refine .append (.append (.append (.append ?_ hrecord) (.of_neutral rfl)) hincr) (.of_neutral rfl)
  refine .append (.append (.append (.append ?_ hrecord) (.of_neutral rfl)) hincr) (.of_neutral rfl)
  exact .group hrecord (fun _ _ => rfl) hincr fun _ _ => rfl

omit hstem in
theorem guard_moves {guard : Option String} : (∀ g, guard = some g → Sealed g) →
    Moves 1 (1 + guard.isSome.toNat) (match guard with
      | some g => ifOpen g
      | none => "") := by
  intro h
  cases guard with
  | none => exact .empty 1
  | some g => exact (Scan.ifOpen_moves (h g rfl)).under 1

theorem opening_moves (hsource : Sealed l.source) (htarget : Sealed l.target)
    (hkey : ∀ k, l.key = some k → Sealed k) : Moves 0 1 l.opening := by
  have hit : Sealed (var l.stem "iterator") := var_sealed hstem rfl
  have hfrom : Sealed (if l.recorded then var l.stem "iterator" else l.source) := by
    cases l.recorded
    · exact hsource
    · exact hit
  have hname := Sealed.option (f := fun k => "$" ++ k ++ " => ") (z := "")
    (fun k hk => .append (.append (.of_neutral rfl) (hkey k hk)) (.of_neutral rfl))
      (.of_neutral rfl)
  refine .sect fun d => ?_
  exact .append (.append (.append (.append (.append (.append rfl (hfrom _ d)) rfl) (hname _ d)) rfl)
    (htarget _ d)) rfl

/-- What is left of a loop after its body. -/
theorem closing_moves : Moves (1 + if l.branched then 0 else l.guard.isSome.toNat) 0 l.closing := by
  have hincr : Moves 1 0 (sect (var l.stem "incr++; \x7d")) :=
    .sect fun d => Reads.append (.append rfl (hstem _ (d + 1))) rfl
  unfold closing
  by_cases hb : l.branched = true
  · rw [if_pos hb, if_pos hb]
    exact Scan.close_moves
  · rw [if_neg hb, if_neg hb]
    refine .append (b := 1) ?_ ?_
    · cases l.guard with
      | none => exact .empty 1
      | some g => exact Scan.close_moves.under 1
    · by_cases hr : l.recorded = true
      · rw [if_pos hr]
        exact hincr
      · rw [if_neg hr]
        exact Scan.close_moves

/-- A loop closes what it opens, if its body closes the guard and the loop where it
has a branch for nothing to loop over, and nothing otherwise. -/
theorem code_moves (hsource : Sealed l.source) (htarget : Sealed l.target)
    (hkey : ∀ k, l.key = some k → Sealed k) (hguard : ∀ g, l.guard = some g → Sealed g)
    (hbody : Moves (1 + l.guard.isSome.toNat)
      (1 + if l.branched then 0 else l.guard.isSome.toNat) l.body) :
    Moves 0 0 l.code := by
  have mark (name : String) (hname : name.toList.all Scan.isNeutral = true) (a : Nat) :
      Moves a a (if l.branched then sect (var l.stem name) else "") := by
    cases l.branched
    · exact .empty a
    · exact (Moves.sect_sealed (var_sealed hstem hname)).under a
  have hprologue : Moves 0 0 (if l.recorded then l.prologue else "") := by
    cases l.recorded
    · exact .empty 0
    · exact prologue_moves hstem hsource
  have hrefresh : Moves 1 1 (if l.recorded then l.refresh else "") := by
    cases l.recorded
    · exact .empty 1
    · exact (refresh_moves hstem).under 1
  have hopening := opening_moves hstem hsource htarget hkey
  have hstart :=
    (((mark "iterated = false;" rfl 0).append hprologue).append hopening).append hrefresh
  exact (((hstart.append (guard_moves hguard)).append
    (mark "iterated = true;" rfl _)).append hbody).append
    (closing_moves hstem)

omit hstem in
/-- The branch for nothing to loop over closes the guard and the loop, and is open
itself. -/
theorem branch_moves {stem : String} (hstem : Sealed stem) (guarded recorded : Bool) :
    Moves (1 + guarded.toNat) 1 (branch stem guarded recorded) := by
  refine .sect fun d => ?_
  have hguard : Reads (inside [] (d + (1 + guarded.toNat))) (if guarded then "\x7d " else "")
      (inside [] (d + 1)) := by
    cases guarded <;> rfl
  have hincr : Reads (inside [] (d + 1)) (if recorded then var stem "incr++; " else "")
      (inside [] (d + 1)) := by
    cases recorded
    · rfl
    · exact var_sealed hstem rfl [] (d + 1)
  have hiterated : Sealed (var stem "iterated") := var_sealed hstem rfl
  exact .append (.append (.append (.append hguard hincr) rfl) (hiterated _ d)) rfl

end Code.Loop

/-! ### Macros and caches -/

namespace Code

theorem Macro.reference_sealed (name : String) : Sealed (Macro.reference name) := fun _ d =>
  Reads.append (.append rfl (Scan.quote_sealed name _ d)) rfl

theorem Macro.parameter_sealed {name otherwise : String} (index : Nat)
    (hname : Compiler.isIdentifier name = true) (hother : Sealed otherwise) :
    Sealed (Macro.parameter index name otherwise) := by
  have hi := Scan.nat_sealed index
  have hn := Sealed.of_isIdentifier hname
  have hq := Scan.reads_literal_identifier hname .double
  exact fun _ d =>
    Reads.append (.append (.append (.append (.append (.append (.append (.append (.append
    (.append (.append (.append (.append (.append (.append rfl (hi _ d)) rfl) (hn _ (d + 1))) rfl)
    (hi _ (d + 1))) rfl) rfl) (hq _)) rfl) (hn _ (d + 2))) rfl) (hq _)) rfl) (hother _ (d + 2))) rfl

theorem Macro.fallback_sealed {name value : String} (hname : Compiler.isIdentifier name = true)
    (hvalue : Sealed value) : Sealed (Macro.fallback name value) :=
  .append
    (.append
      (.append (.append (.of_neutral rfl) (.of_isIdentifier hname)) (.of_neutral rfl)) hvalue)
    (.of_neutral rfl)

theorem Macro.refuse_sealed {macroName name : String}
    (hdefined : Compiler.isIdentifier macroName = true)
    (hname : Compiler.isIdentifier name = true) : Sealed (Macro.refuse macroName name) := fun _ _ =>
  Reads.append
    (.append (.append (.append rfl (Scan.reads_literal_identifier hdefined .double _)) rfl)
    (Scan.reads_literal_identifier hname .double _)) rfl

theorem Macro.code_moves {name body : String} {parameters : List String}
    (hparameters : ∀ x ∈ parameters, Sealed x) (hbody : Moves 0 0 body) :
    Moves 0 0 (Macro.code name parameters body) := by
  have href := Macro.reference_sealed name
  have hopening : Moves 0 1 (if parameters.isEmpty then
        "<?php " ++ Macro.reference name ++ " = function() \x7b ?>"
      else "<?php " ++ Macro.reference name ++ " = function($__p = []) \x7b " ++
        String.join parameters ++
        "?>") := by
    intro d p hp
    have hstart : Reads ⟨p, ⟨[], d⟩⟩ ("<?php " ++ Macro.reference name) (inside [] d) :=
      .append (.append (b := " ") (Scan.reads_open hp d) rfl) (href [] d)
    refine ⟨.text, .inl rfl, ?_⟩
    by_cases he : parameters.isEmpty = true
    · rw [if_pos he]
      exact hstart.append rfl
    · rw [if_neg he]
      exact .append (.append (.append hstart rfl) (Sealed.join hparameters [] (d + 1))) rfl
  have hclosing : Moves 1 0 (sect ("\x7d; " ++ Macro.reference name ++ " = \\Closure::bind(" ++
      Macro.reference name ++ ", $this);")) :=
    .sect fun d => Reads.append (.append (.append (.append rfl (href _ d)) rfl) (href _ d)) rfl
  exact (hopening.append (hbody.under 1)).append hclosing

theorem cached_moves {key body : String} {lifetime : Option String} (hkey : Sealed key)
    (hlife : ∀ x, lifetime = some x → Sealed x) (hbody : Moves 0 0 body) :
    Moves 0 0 (cached key lifetime body) := by
  have hslot : Sealed ("$_cache[" ++ key ++ "]") :=
    fun _ d => Reads.append (.append rfl (hkey _ d)) rfl
  have hfound : Sealed ("$_cacheKey[" ++ key ++ "]") :=
    fun _ d => Reads.append (.append rfl (hkey _ d)) rfl
  have hstart := Sealed.option (f := fun l => commas [key, l])
    (fun l hl => hkey.pair (hlife l hl)) hkey
  have hthree (l : String) (hl : lifetime = some l) : Sealed (commas [key, "null", l]) := by
    refine .commas fun x hx => ?_
    simp only [List.mem_cons, List.not_mem_nil, or_false] at hx
    rcases hx with rfl | rfl | rfl
    · exact hkey
    · exact .of_neutral rfl
    · exact hlife _ hl
  have hsave := Sealed.option (f := fun l => commas [key, "null", l]) hthree hkey
  have hopening := (hslot.append (b := "->start") (.of_neutral rfl)).apply hstart
  have hclosing := (hslot.append (b := "->save") (.of_neutral rfl)).apply hsave
  refine .append (.append (b := 1) (.sect fun d => ?_) (hbody.under 1)) (.sect fun d => ?_)
  · exact .append
      (.append (.append (.append (.append (.append (.append (hslot [] d) rfl) (hfound [] d))
      rfl) (hopening [] d)) rfl) (hfound _ d)) rfl
  · exact .append (.append (.append (hclosing [] (d + 1)) rfl) (hfound [] (d + 1))) rfl

end Code

/-! ### Statements where they belong -/

/-- The node is a further condition of a conditional. -/
def Node.isElseIf : Node → Bool
  | .mk (.elseIf _) _ => true
  | _ => false

/-- None of the nodes is a branch of the statement around them. -/
def Node.Unbranched (ns : List Node) : Prop := ∀ n ∈ ns, n.isElseIf = false ∧ n.isForElse = false

instance (ns : List Node) : Decidable (Node.Unbranched ns) :=
  inferInstanceAs (Decidable (∀ n ∈ ns, n.isElseIf = false ∧ n.isForElse = false))

/-- A text does not start a section, names are identifiers, and the branches in a body
are those that the statement can have. -/
def Stmt.Regular : Stmt → Prop
  | .text value => ¬ ['<', '?'] <:+: value.toList ∧ value.toList.head? ≠ some '?'
  | .ifThen _ body other => (∀ n ∈ body, n.isForElse = false) ∧
      ∀ ns ∈ other, ∀ n ∈ ns, n.isForElse = false
  | .forIn target key _ _ body => Compiler.isIdentifier target = true ∧
      (∀ k ∈ key, Compiler.isIdentifier k = true) ∧
      (∀ n ∈ body, n.isElseIf = false) ∧ body.countP Node.isForElse ≤ 1
  | .macroDef name params body => Compiler.isIdentifier name = true ∧
      (∀ p ∈ params, Compiler.isIdentifier p.name = true) ∧ Node.Unbranched body
  | .switchOn _ body | .block _ body | .autoescape _ body | .cached _ _ body => Node.Unbranched body
  | _ => True

instance : (s : Stmt) → Decidable s.Regular
  | .text _ | .ifThen .. | .forIn .. | .macroDef .. => inferInstanceAs (Decidable (_ ∧ _))
  | .switchOn _ body | .block _ body | .autoescape _ body | .cached _ _ body =>
    inferInstanceAs (Decidable (Node.Unbranched body))
  | .echo _ | .elseIf _ | .caseOf _ | .caseDefault | .forElse | .assign _ | .extending _
  | .including _ _ | .evaluate _ | .returning _ | .continueLoop | .breakLoop
  | .unknown => .isTrue trivial

/-- A statement is regular, and so are the names in its expressions. -/
def Stmt.Sound (s : Stmt) : Prop := s.Regular ∧ ∀ e ∈ s.exprs, e.all Expr.named = true

instance (s : Stmt) : Decidable s.Sound :=
  inferInstanceAs (Decidable (s.Regular ∧ ∀ e ∈ s.exprs, e.all Expr.named = true))

namespace Plain

variable {S : Site} {k : Spot} {depth : Nat} {code : String}

/-! ### Statements without a body -/

theorem optional_sealed (hS : S.Standard) {e : Option Expr} {x : Option String}
    (he : ∀ e', e = some e' → e'.all Expr.named = true) (h : optional? S depth e = some x) :
    x.isSome = e.isSome ∧ ∀ code, x = some code → Sealed code := by
  cases e with
  | none =>
    cases h
    exact ⟨rfl, nofun⟩
  | some e =>
    obtain ⟨code, hcode, rfl⟩ := Option.map_eq_some_iff.1 h
    refine ⟨rfl, ?_⟩
    rintro _ ⟨⟩
    exact expr_sealed hS e (he e rfl) hcode

/-- An expression that a statement cannot do without. -/
theorem operand_sealed (hS : S.Standard) {e : Option Expr} {f : String → Option String}
    (hn : ∀ x ∈ e.toList, x.all Expr.named = true)
    (h : (e >>= fun e => expr? S depth e >>= f) = some code) :
    ∃ x, Sealed x ∧ f x = some code := by
  obtain ⟨e', rfl, hrest⟩ := Option.bind_eq_some_iff.1 h
  obtain ⟨x, hx, hcode⟩ := Option.bind_eq_some_iff.1 hrest
  exact ⟨x, expr_sealed hS e' (hn e' (by simp)) hx, hcode⟩

theorem echo_moves (hS : S.Standard) {e : Expr} (he : e.all Expr.named = true)
    (h : echo? S k e = some code) : Moves 0 0 code := by
  obtain ⟨x, hx, rfl⟩ := Option.map_eq_some_iff.1 h
  have hsealed := expr_sealed hS e he hx
  by_cases hsuper : e.isSuper = true
  · have hempty : x = "''" := by
      unfold Expr.isSuper at hsuper
      split at hsuper
      · obtain ⟨given, -, hx⟩ := Option.bind_eq_some_iff.1 hx
        have hname := beq_iff_eq.1 hsuper
        unfold callCode? callNamed? at hx
        rw [hS.functions, hname] at hx
        exact (Option.some.inj hx).symm
      · cases hsuper
    rw [if_pos hsuper, hempty]
    rintro d p (rfl | rfl)
    · exact ⟨.text, .inl rfl, rfl⟩
    · exact ⟨.text, .inl rfl, rfl⟩
  · rw [if_neg hsuper]
    by_cases hescape : k.autoescape = true
    · rw [if_pos hescape]
      exact .print (.apply (.of_neutral rfl) hsealed)
    · rw [if_neg hescape]
      exact .print hsealed

theorem assignments_sealed (hS : S.Standard) : ∀ {as : List Assignment} {code : String},
    (∀ e ∈ as.flatMap fun a => a.target :: a.value.toList, e.all Expr.named = true) →
    assignments? S depth as = some code → Sealed code
  | [], code, _, h => by
    cases h
    exact .of_neutral rfl
  | a :: rest, code, hn, h => by
    obtain ⟨v, hv, h⟩ := Option.bind_eq_some_iff.1 h
    obtain ⟨value, hvalue, h⟩ := Option.bind_eq_some_iff.1 h
    obtain ⟨target, htarget, h⟩ := Option.bind_eq_some_iff.1 h
    obtain ⟨more, hmore, h⟩ := Option.bind_eq_some_iff.1 h
    cases h
    have hvalue := expr_sealed hS v (hn v (by simp [hv])) hvalue
    have htarget := expr_sealed hS a.target (hn a.target (by simp)) htarget
    have hmore := assignments_sealed hS (fun e he => hn e (by
      rw [List.flatMap_cons]
      exact List.mem_append_right _ he)) hmore
    have hsign : Sealed a.op.sign := by
      cases a.op <;> exact .of_neutral rfl
    exact .append (.append (.append (.of_neutral rfl) (htarget.between _ hsign hvalue))
      (.of_neutral rfl)) hmore

theorem parameters_sealed (hS : S.Standard) {name : String}
    (hname : Compiler.isIdentifier name = true) :
    ∀ {ps : List Parameter} {i : Nat} {codes : List String},
    (∀ p ∈ ps, Compiler.isIdentifier p.name = true) →
    (∀ e ∈ ps.flatMap fun p => p.fallback.toList, e.all Expr.named = true) →
    parameters? S depth name i ps = some codes → ∀ x ∈ codes, Sealed x
  | [], i, codes, _, _, h => by
    cases h
    exact fun _ hx => absurd hx List.not_mem_nil
  | ⟨name', fallback⟩ :: rest, i, codes, hp, hn, h => by
    have hparam : Compiler.isIdentifier name' = true := hp _ List.mem_cons_self
    have hrest {more : List String} (hmore : parameters? S depth name (i + 1) rest = some more) :
        ∀ x ∈ more, Sealed x := by
      refine parameters_sealed hS hname (fun q hq => hp q (List.mem_cons_of_mem _ hq))
        (fun e he => hn e ?_)
        hmore
      rw [List.flatMap_cons]
      exact List.mem_append_right _ he
    obtain ⟨otherwise, more, hother, hmore, rfl⟩ : ∃ otherwise more, Sealed otherwise ∧
        parameters? S depth name (i + 1) rest = some more ∧
        codes = Code.Macro.parameter i name' otherwise :: more := by
      cases fallback with
      | none =>
        obtain ⟨more, hmore, h⟩ := Option.bind_eq_some_iff.1 h
        exact ⟨_, more, Code.Macro.refuse_sealed hname hparam, hmore, (Option.some.inj h).symm⟩
      | some e =>
        obtain ⟨otherwise, ho, h⟩ := Option.bind_eq_some_iff.1 h
        obtain ⟨more, hmore, h⟩ := Option.bind_eq_some_iff.1 h
        obtain ⟨value, hvalue, rfl⟩ := Option.map_eq_some_iff.1 ho
        have he := expr_sealed hS e (hn e (by simp)) hvalue
        exact ⟨_, more, Code.Macro.fallback_sealed hparam he, hmore, (Option.some.inj h).symm⟩
    intro x hx
    rcases List.mem_cons.1 hx with rfl | hx
    · exact Code.Macro.parameter_sealed i hparam hother
    · exact hrest hmore x hx

theorem include_moves (hS : S.Standard) {path params : Option Expr}
    (hn : ∀ e ∈ path.toList ++ params.toList, e.all Expr.named = true)
    (h : include? S depth path params = some code) : Moves 0 0 code := by
  obtain ⟨e, he, h⟩ := Option.bind_eq_some_iff.1 h
  have he := hn e (by simp [he])
  have hpartial {x : String} (hx : Sealed x) :
      Moves 0 0 (Code.sect (Code.apply "$this->partial" x ++ ";")) :=
    .sect_sealed (.append (.apply (.of_neutral rfl) hx) (.of_neutral rfl))
  split at h
  · cases h
  · obtain ⟨x, hx, h⟩ := Option.bind_eq_some_iff.1 h
    cases h
    exact hpartial (expr_sealed hS e he hx)
  · obtain ⟨x, hx, h⟩ := Option.bind_eq_some_iff.1 h
    obtain ⟨y, hy, h⟩ := Option.bind_eq_some_iff.1 h
    cases h
    exact hpartial ((expr_sealed hS e he hx).pair (expr_sealed hS _ (hn _ (by simp)) hy))

/-! ### Lists of statements -/

/-- A node closes what it opens; a further condition closes and opens a branch. -/
structure Steady (S : Site) (n : Node) : Prop where
  plain : n.isElseIf = false → n.isForElse = false → ∀ {k code}, stmt? S k n.stmt = some code →
    Moves 0 0 code
  elseIf : n.isElseIf = true → ∀ {k code}, stmt? S k n.stmt = some code → Moves 1 1 code

theorem nodes_moves_each {a : Nat} : ∀ {ns : List Node} {k : Spot} {code : String},
    (∀ n ∈ ns, ∀ {k code}, stmt? S k n.stmt = some code → Moves a a code) →
    nodes? S k ns = some code → Moves a a code
  | [], k, code, _, h => by
    cases h
    exact .empty a
  | .mk s pos :: rest, k, code, hn, h => by
    obtain ⟨first, hfirst, h⟩ := Option.bind_eq_some_iff.1 h
    obtain ⟨more, hmore, h⟩ := Option.bind_eq_some_iff.1 h
    cases h
    exact (hn _ List.mem_cons_self hfirst).append
      (nodes_moves_each (fun n hmem => hn n (List.mem_cons_of_mem _ hmem)) hmore)

theorem nodes_moves {ns : List Node} (hs : ∀ n ∈ ns, Steady S n) (hu : Node.Unbranched ns)
    (h : nodes? S k ns = some code) : Moves 0 0 code :=
  nodes_moves_each (fun n hn => (hs n hn).plain (hu n hn).1 (hu n hn).2) h

/-- The body of a conditional, which may have further conditions. -/
theorem nodes_moves_if {ns : List Node} (hs : ∀ n ∈ ns, Steady S n)
    (hu : ∀ n ∈ ns, n.isForElse = false) (h : nodes? S k ns = some code) : Moves 1 1 code := by
  refine nodes_moves_each (fun n hn {k code} hcode => ?_) h
  cases he : n.isElseIf with
  | true => exact (hs n hn).elseIf he hcode
  | false => exact ((hs n hn).plain he (hu n hn) hcode).under 1

/-- The body of a loop with a branch for nothing to loop over. The induction goes to
the branch; what comes after it is in the branch. -/
theorem nodes_moves_branch {b : Emit.Branch} (hstem : Sealed b.stem) : ∀ {ns : List Node} {k : Spot}
    {code : String}, (∀ n ∈ ns, Steady S n) → (∀ n ∈ ns, n.isElseIf = false) →
    ns.countP Node.isForElse = 1 → k.branch = some b → nodes? S k ns = some code →
    Moves (1 + b.guarded.toNat) 1 code
  | [], k, code, _, _, hcount, _, _ => by cases hcount
  | .mk s pos :: rest, k, code, hs, hu, hcount, hb, h => by
    obtain ⟨first, hfirst, h⟩ := Option.bind_eq_some_iff.1 h
    obtain ⟨more, hmore, h⟩ := Option.bind_eq_some_iff.1 h
    cases h
    have hs' : ∀ n ∈ rest, Steady S n := fun n hn => hs n (List.mem_cons_of_mem _ hn)
    have hu' : ∀ n ∈ rest, n.isElseIf = false := fun n hn => hu n (List.mem_cons_of_mem _ hn)
    cases hf : (Node.mk s pos).isForElse with
    | true =>
      rw [List.countP_cons_of_pos hf, Nat.add_eq_right, List.countP_eq_zero] at hcount
      obtain rfl : s = .forElse := by
        cases s with
        | forElse => rfl
        | _ => cases hf
      have hbranch : first = Code.Loop.branch b.stem b.guarded k.used := by
        unfold stmt? at hfirst
        rw [hb] at hfirst
        exact (Option.some.inj hfirst).symm
      rw [hbranch]
      refine (Code.Loop.branch_moves hstem _ _).append ?_
      exact (nodes_moves hs' (fun n hn => ⟨hu' n hn, by simpa using hcount n hn⟩) hmore).under 1
    | false =>
      rw [List.countP_cons_of_neg (by simp [hf])] at hcount
      have hfirst := (hs _ List.mem_cons_self).plain (hu _ List.mem_cons_self) hf hfirst
      exact (hfirst.under _).append
        (nodes_moves_branch hstem hs' hu' hcount (by simpa using hb) hmore)

/-- The body of a loop. -/
theorem nodes_moves_loop {stem : String} (hstem : Sealed stem) {ns : List Node}
    {guarded uses : Bool} (hs : ∀ n ∈ ns, Steady S n) (hu : ∀ n ∈ ns, n.isElseIf = false)
    (hcount : ns.countP Node.isForElse ≤ 1)
    (h : nodes? S ((k.enter stem guarded (ns.any Node.isForElse)).using uses) ns = some code) :
    Moves (1 + guarded.toNat) (1 + if ns.any Node.isForElse then 0 else guarded.toNat) code := by
  cases hany : ns.any Node.isForElse with
  | true =>
    have hone : ns.countP Node.isForElse = 1 := by
      have := List.countP_pos_iff.2 (List.any_eq_true.1 hany)
      omega
    rw [hany] at h
    exact nodes_moves_branch (b := ⟨stem, guarded⟩) hstem hs hu hone rfl h
  | false =>
    have hnone : ∀ n ∈ ns, n.isForElse = false := by simpa using hany
    exact (nodes_moves hs (fun n hn => ⟨hu n hn, hnone n hn⟩) h).under _

/-! ### Statements with bodies -/

theorem Steady.of_plain {n : Node} (hn : n.isElseIf = false)
    (h : ∀ {k code}, stmt? S k n.stmt = some code → Moves 0 0 code) : Steady S n :=
  ⟨fun _ _ => h, fun he => by rw [hn] at he; cases he⟩

/-- The body of a `switch` follows a section, so its blanks can be reduced. -/
theorem switch_moves {subject body : String} (hsubject : Sealed subject) (hbody : Moves 0 0 body) :
    Moves 0 0 (Code.sect ("switch (" ++ subject ++ "):") ++ Text.tidy body ++
      Code.sect "endswitch") := by
  intro d p hp
  have hopen : Reads ⟨p, ⟨[], d⟩⟩ (Code.sect ("switch (" ++ subject ++ "):")) ⟨.text, ⟨[], d⟩⟩ :=
    Scan.reads_sect hp (Reads.append (.append rfl (hsubject _ d)) rfl)
  obtain ⟨q, hq, hread⟩ := hbody d .text (.inl rfl)
  obtain ⟨r, hr, htidy⟩ := Scan.reads_tidy hread hq
  exact ⟨.text, .inl rfl, (hopen.append htidy).append (Scan.reads_sect hr rfl)⟩

mutual

/-- A statement closes what it opens. -/
theorem stmt_steady (hS : S.Standard) :
    ∀ (s : Stmt) (pos : Position), (∀ x ∈ s.statements, x.Sound) →
    Steady S (.mk s pos)
  | .text value, pos, h => by
    have hregular := (h _ (Stmt.mem_statements _)).1
    refine .of_plain rfl fun hcode => ?_
    cases hcode
    exact Scan.text_moves hregular.1 hregular.2
  | .echo e, pos, h => by
    have hn := (h _ (Stmt.mem_statements _)).2
    refine .of_plain rfl fun hcode => ?_
    obtain ⟨e, rfl, hcode⟩ := Option.bind_eq_some_iff.1 hcode
    exact echo_moves hS (hn e (by simp [Stmt.exprs])) hcode
  | .ifThen condition body other, pos, h => by
    obtain ⟨hregular, hn⟩ := h _ (Stmt.mem_statements _)
    have hbody := nodes_steady hS body fun x hx => h x (by simp [Stmt.statements, hx])
    refine .of_plain rfl fun hcode => ?_
    obtain ⟨cond, hcond, hcode⟩ := operand_sealed hS hn hcode
    obtain ⟨inner, hinner, hcode⟩ := Option.bind_eq_some_iff.1 hcode
    obtain ⟨rest, hrest, hcode⟩ := Option.bind_eq_some_iff.1 hcode
    cases hcode
    have hother : Moves 1 1 rest := by
      cases other with
      | none =>
        cases hrest
        exact .empty 1
      | some ns =>
        have hns := nodes_steady hS ns fun x hx =>
          h x (by simp [Stmt.statements, Node.statementsOption, hx])
        obtain ⟨code, hlast, hrest⟩ := Option.bind_eq_some_iff.1 hrest
        cases hrest
        exact Scan.elseOpen_moves.append (nodes_moves_if hns (hregular.2 ns rfl) hlast)
    have hopen := (Scan.ifOpen_moves hcond).append (nodes_moves_if hbody hregular.1 hinner)
    exact (hopen.append hother).append Scan.close_moves
  | .elseIf condition, pos, h => by
    have hn := (h _ (Stmt.mem_statements _)).2
    refine ⟨nofun, fun _ {k code} hcode => ?_⟩
    obtain ⟨cond, hcond, hcode⟩ := operand_sealed hS hn hcode
    cases hcode
    exact Scan.elseIf_moves hcond
  | .switchOn subject cases, pos, h => by
    obtain ⟨hregular, hn⟩ := h _ (Stmt.mem_statements _)
    have hbody := nodes_steady hS cases fun x hx => h x (by simp [Stmt.statements, hx])
    refine .of_plain rfl fun hcode => ?_
    obtain ⟨x, hx, hcode⟩ := operand_sealed hS hn hcode
    obtain ⟨inner, hinner, hcode⟩ := Option.bind_eq_some_iff.1 hcode
    cases hcode
    exact switch_moves hx (nodes_moves hbody hregular hinner)
  | .caseOf value, pos, h => by
    have hn := (h _ (Stmt.mem_statements _)).2
    refine .of_plain rfl fun hcode => ?_
    obtain ⟨x, hx, hcode⟩ := operand_sealed hS hn hcode
    cases hcode
    exact .sect_sealed (.append (.append (.of_neutral rfl) hx) (.of_neutral rfl))
  | .caseDefault, pos, _ => by
    refine .of_plain rfl fun hcode => ?_
    cases hcode
    exact .sect_sealed (.of_neutral rfl)
  | .forIn target key iterable guard body, pos, h => by
    obtain ⟨⟨htarget, hkey, hbranches, hcount⟩, hn⟩ := h _ (Stmt.mem_statements _)
    have hbody := nodes_steady hS body fun x hx => h x (by simp [Stmt.statements, hx])
    refine .of_plain rfl fun {k code} hcode => ?_
    obtain ⟨i, rfl, hcode⟩ := Option.bind_eq_some_iff.1 hcode
    obtain ⟨stem, hstem, hcode⟩ := Option.bind_eq_some_iff.1 hcode
    obtain ⟨source, hsource, hcode⟩ := Option.bind_eq_some_iff.1 hcode
    obtain ⟨g, hguard, hcode⟩ := Option.bind_eq_some_iff.1 hcode
    obtain ⟨inner, hinner, hcode⟩ := Option.bind_eq_some_iff.1 hcode
    cases hcode
    have hstem : Sealed (stem ++ toString (k.depth + 1)) :=
      (Sealed.of_isIdentifier (hS.stem stem hstem)).append (Scan.nat_sealed _)
    have hsource := expr_sealed hS i (hn i (by simp [Stmt.exprs])) hsource
    obtain ⟨hsome, hg⟩ := optional_sealed hS (fun e he => hn e (by simp [Stmt.exprs, he])) hguard
    refine Code.Loop.code_moves hstem hsource (.of_isIdentifier htarget)
      (fun k hk => .of_isIdentifier (hkey k hk)) hg ?_
    dsimp only
    rw [hsome]
    exact nodes_moves_loop hstem hbody hbranches hcount hinner
  | .forElse, pos, _ => ⟨nofun, nofun⟩
  | .assign as, pos, h => by
    have hn := (h _ (Stmt.mem_statements _)).2
    refine .of_plain rfl fun hcode => ?_
    rw [Node.stmt, stmt?] at hcode
    split at hcode
    · cases hcode
    · obtain ⟨x, hx, rfl⟩ := Option.map_eq_some_iff.1 hcode
      have hx := assignments_sealed hS hn hx
      intro d p hp
      exact ⟨.text, .inl rfl, .append (.append (Scan.reads_open hp d) (hx [] d)) rfl⟩
  | .block name body, pos, h => by
    have hregular := (h _ (Stmt.mem_statements _)).1
    have hbody := nodes_steady hS body fun x hx => h x (by simp [Stmt.statements, hx])
    exact .of_plain rfl fun hcode => nodes_moves hbody hregular hcode
  | .extending _, pos, _ => .of_plain rfl nofun
  | .including path params, pos, h =>
    .of_plain rfl fun hcode => include_moves hS (h _ (Stmt.mem_statements _)).2 hcode
  | .macroDef name params body, pos, h => by
    obtain ⟨⟨hname, hparams, hregular⟩, hn⟩ := h _ (Stmt.mem_statements _)
    have hbody := nodes_steady hS body fun x hx => h x (by simp [Stmt.statements, hx])
    refine .of_plain rfl fun hcode => ?_
    obtain ⟨given, hgiven, hcode⟩ := Option.bind_eq_some_iff.1 hcode
    obtain ⟨inner, hinner, hcode⟩ := Option.bind_eq_some_iff.1 hcode
    cases hcode
    exact Code.Macro.code_moves (parameters_sealed hS hname hparams hn hgiven)
      (nodes_moves hbody hregular hinner)
  | .evaluate e, pos, h => by
    have hn := (h _ (Stmt.mem_statements _)).2
    refine .of_plain rfl fun hcode => ?_
    obtain ⟨x, hx, hcode⟩ := operand_sealed hS hn hcode
    cases hcode
    exact .sect_sealed (.append hx (.of_neutral rfl))
  | .returning e, pos, h => by
    have hn := (h _ (Stmt.mem_statements _)).2
    refine .of_plain rfl fun hcode => ?_
    obtain ⟨x, hx, hcode⟩ := operand_sealed hS hn hcode
    cases hcode
    exact .sect_sealed (.append (.append (.of_neutral rfl) hx) (.of_neutral rfl))
  | .autoescape enabled body, pos, h => by
    have hregular := (h _ (Stmt.mem_statements _)).1
    have hbody := nodes_steady hS body fun x hx => h x (by simp [Stmt.statements, hx])
    refine .of_plain rfl fun hcode => ?_
    obtain ⟨a, -, hcode⟩ := Option.bind_eq_some_iff.1 hcode
    exact nodes_moves hbody hregular hcode
  | .continueLoop, pos, _ | .breakLoop, pos, _ => by
    refine .of_plain rfl fun hcode => ?_
    cases hcode
    exact .sect_sealed (.of_neutral rfl)
  | .cached key lifetime body, pos, h => by
    obtain ⟨hregular, hn⟩ := h _ (Stmt.mem_statements _)
    have hbody := nodes_steady hS body fun x hx => h x (by simp [Stmt.statements, hx])
    refine .of_plain rfl fun hcode => ?_
    have hkey : ∀ e ∈ key.toList, e.all Expr.named = true :=
      fun e he => hn e (List.mem_append_left _ he)
    obtain ⟨x, hx, hcode⟩ := operand_sealed hS hkey hcode
    obtain ⟨life, hlife, hcode⟩ := Option.bind_eq_some_iff.1 hcode
    obtain ⟨inner, hinner, hcode⟩ := Option.bind_eq_some_iff.1 hcode
    cases hcode
    have hlife := (optional_sealed hS (fun e he => hn e (by simp [Stmt.exprs, he])) hlife).2
    exact Code.cached_moves hx hlife (nodes_moves hbody hregular hinner)
  | .unknown, pos, _ => .of_plain rfl nofun

theorem nodes_steady (hS : S.Standard) : ∀ ns : List Node, (∀ x ∈ Node.statements ns, x.Sound) →
    ∀ n ∈ ns, Steady S n
  | [], _, n, hn => by cases hn
  | .mk s pos :: rest, h, n, hn => by
    rcases List.mem_cons.1 hn with rfl | hn
    · exact stmt_steady hS s pos fun x hx => h x (by simp [Node.statements, hx])
    · exact nodes_steady hS rest (fun x hx => h x (by simp [Node.statements, hx])) n hn

end

end Plain

/-- No branch stands outside of what it belongs to, and all statements are sound. -/
def Node.Regular (ns : List Node) : Prop :=
  Node.Unbranched ns ∧ ∀ x ∈ Node.statements ns, x.Sound

instance (ns : List Node) : Decidable (Node.Regular ns) :=
  inferInstanceAs (Decidable (Node.Unbranched ns ∧ ∀ x ∈ Node.statements ns, x.Sound))

theorem Compiler.site_standard {c : Compiler} (hfunctions : c.functions = [])
    (hfilters : c.filters = []) (source : String) : (c.site source).Standard := by
  refine ⟨hfunctions, hfilters, fun stem h => ?_⟩
  unfold site at h
  dsimp only at h
  split at h
  · rename_i hident
    rw [← Option.some.inj h]
    exact hident
  · cases h

/-! ### A page with branches -/

namespace Fences

/-- A conditional with a further condition, a guarded loop with a branch for nothing
to loop over, and a `switch` whose blanks are reduced. -/
def tree : Template :=
  [.mk (.text "<") .unknown,
    .mk (.ifThen (some (.var "x"))
      [.mk (.text "a)") .unknown, .mk (.elseIf (some (.var "y"))) .unknown,
        .mk (.echo (some (.str "it's ?>"))) .unknown] none) .unknown,
    .mk (.forIn "v" none (some (.var "xs")) (some (.var "v"))
      [.mk (.text "b") .unknown, .mk .forElse .unknown, .mk (.text "c") .unknown]) .unknown,
    .mk (.switchOn (some (.var "x"))
      [.mk (.text "  ") .unknown, .mk .caseDefault .unknown, .mk (.text "<  ?") .unknown]) .unknown]

def compiler : Compiler :=
  { Compiler.initial with
    makeStem := some fun _ => "v"
    parse := fun _ _ => .ok tree }

/-- What it compiles to. -/
def code : String :=
  "<<?php if ($x) \x7b ?>a)<?php \x7d elseif ($y) \x7b ?><?= 'it\\'s ?>' ?><?php \x7d ?>" ++
  "<?php $v1iterated = false; ?><?php foreach ($xs as $v) \x7b ?><?php if ($v) \x7b ?>" ++
  "<?php $v1iterated = true; ?>b<?php \x7d \x7d if (!$v1iterated) \x7b ?>c<?php \x7d ?>" ++
  "<?php switch ($x): ?><?php default: ?>< ?<?php endswitch ?>"

theorem regular : Node.Regular tree := by decide +kernel

end Fences

/-- **Generated text is well formed.** Nothing is registered and no other template is
named. A text does not start a section, names are identifiers, and branches stand
where they belong. Then what the template compiles to is balanced. -/
theorem Compiler.compileSource_balanced {c : Compiler} {d : Disk} {text source code : String}
    {tree : Template} (hext : c.extensions = []) (hfunctions : c.functions = [])
    (hfilters : c.filters = []) (hparse : c.parse text source = .ok tree)
    (hlinks : Node.links tree = []) (hregular : Node.Regular tree)
    (h : (exec (c.compileSource text source .page) d).1 = .ok (.code code)) :
    Scan.Balanced code := by
  have hplain := ((compileSource_eq_ok_iff hext hparse hlinks).1 h).1
  have hsteady := Plain.nodes_steady (site_standard hfunctions hfilters source) tree hregular.2
  obtain ⟨p, hp, hread⟩ := Plain.nodes_moves hsteady hregular.1 hplain 0 .text (.inl rfl)
  exact Scan.balanced_of_reads hp hread

/-- A page in which branches close braces that other statements opened. -/
theorem Compiler.compileSource_balanced_fences : Node.Regular Fences.tree ∧
    (exec (Fences.compiler.compileSource "" "x" .page) .empty).1 = .ok (.code Fences.code) ∧
    Scan.Balanced Fences.code := by
  have hparse : Fences.compiler.parse "" "x" = .ok Fences.tree := rfl
  have hcode : (exec (Fences.compiler.compileSource "" "x" .page) .empty).1 =
      .ok (.code Fences.code) :=
    (compileSource_eq_ok_iff rfl hparse rfl).2 ⟨by decide +kernel, by decide⟩
  exact ⟨Fences.regular, hcode, compileSource_balanced rfl rfl rfl hparse rfl Fences.regular hcode⟩

end Stencil
