/-
# Text in a branch of a layout

A layout is cut into segments where its blocks stand, also where they stand in the
body of another statement. So a text in a branch is not always part of the code of the
branch: a block after it in the body ends the segment that the text is in, before the
branch itself is emitted. If no block follows it, the text is where it belongs: in one
segment, inside the code of its branch, and nowhere else.

Key definitions: `Emit.Guarded`, `Emit.Pocket`, `Emit.Held`.
Key theorems: `Emit.branch_carries`, `Emit.layout_guards`, `Compiler.compileTree_guards`.
-/
import Stencil.Proofs.Carried
import Stencil.Proofs.Compile
import Stencil.Proofs.Passes

namespace Stencil
namespace Emit

/-! ### Guarded code -/

/-- Tidying keeps all that is not blank. -/
theorem mem_scan {c : Char} (hc : Text.isBlank c = false) :
    ∀ {cs : List Char} (edge : Bool) (run : List Char),
      c ∈ cs → c ∈ Text.scan Text.squeeze edge run cs
  | d :: cs, edge, run, h => by
    unfold Text.scan
    rcases List.mem_cons.1 h with rfl | h
    · rw [if_neg (by simp [hc])]
      split <;> simp
    · split
      · exact mem_scan hc edge _ h
      · split
        · exact List.mem_cons_of_mem _ (mem_scan hc true [] h)
        · exact List.mem_append_right _ (List.mem_cons_of_mem _ (mem_scan hc false [] h))

theorem Wrap.mem {w : String → String} (hw : Wrap w) {c : Char} (hc : Text.isBlank c = false)
    {v : String} (h : c ∈ v.toList) : c ∈ (w v).toList := by
  induction hw with
  | refl => exact h
  | before code _ ih => simp [ih]
  | after code _ ih => simp [ih]
  | tidy _ ih =>
    rw [Text.tidy_eq_scan]
    exact mem_scan hc true [] ih

/-- The text is inside the code of a branch whose condition is emitted as `K` says. -/
def Guarded (K : String → Prop) (F : String → String) : Prop :=
  ∃ w g cond rest, Wrap w ∧ Wrap g ∧ K cond ∧
    F = fun v => w (Code.ifOpen cond ++ g v ++ rest ++ Code.close)

variable {K : String → Prop}

theorem Guarded.wrap {F w : String → String} (h : Guarded K F) (hw : Wrap w) :
    Guarded K fun v => w (F v) := by
  obtain ⟨w', g, cond, rest, hw', hg, hcond, rfl⟩ := h
  exact ⟨_, g, cond, rest, hw.comp hw', hg, hcond, rfl⟩

theorem Guarded.ne_empty {F : String → String} (h : Guarded K F) (v : String) : F v ≠ "" := by
  obtain ⟨w, g, cond, rest, hw, -, -, rfl⟩ := h
  have hmem : '<' ∈ (w (Code.ifOpen cond ++ g v ++ rest ++ Code.close)).toList :=
    hw.mem (by decide) (by simp [Code.ifOpen, Code.sect])
  intro hempty
  have hnil : (w (Code.ifOpen cond ++ g v ++ rest ++ Code.close)).toList = [] :=
    congrArg String.toList hempty
  rw [hnil] at hmem
  cases hmem

/-! ### Blocks that depend on the text -/

/-- One segment depends on the text, and is its branch. -/
def Pocket (K : String → Prop) (M : String → BlockMap) : Prop :=
  ∃ before after p n F, Guarded K F ∧ p < n ∧
    M = fun v => ⟨before ++ (.position p, .code (F v)) :: after, n⟩

/-- Filing under another key changes nothing about an entry but what stands around it. -/
theorem put_around {key k : BlockKey} (hk : key ≠ k) (body : BlockBody)
    (after : List (BlockKey × BlockBody)) :
    ∀ before : List (BlockKey × BlockBody), ∃ before' after', ∀ x,
      BlockMap.put key body (before ++ (k, x) :: after) = before' ++ (k, x) :: after'
  | [] => by
    refine ⟨[], BlockMap.put key body after, fun x => ?_⟩
    simp [BlockMap.put, Ne.symm hk]
  | (l, y) :: before => by
    by_cases hl : l = key
    · exact ⟨(l, body) :: before, after, fun x => by simp [BlockMap.put, hl]⟩
    · obtain ⟨before', after', h⟩ := put_around hk body after before
      exact ⟨(l, y) :: before', after', fun x => by simp [BlockMap.put, hl, h]⟩

theorem Pocket.write {M : String → BlockMap} (h : Pocket K M) (w : Write) :
    Pocket K fun v => w.to (M v) := by
  obtain ⟨before, after, p, n, F, hF, hp, rfl⟩ := h
  cases w with
  | segment code =>
    by_cases hcode : code = ""
    · refine ⟨before, after, p, n, F, hF, hp, ?_⟩
      funext v
      simp [Write.to, BlockMap.segment, hcode]
    · have hkey : BlockKey.position n ≠ .position p := by
        rintro ⟨⟩
        omega
      obtain ⟨before', after', hput⟩ := put_around hkey (.code code) after before
      refine ⟨before', after', p, n + 1, F, hF, by omega, ?_⟩
      funext v
      simp [Write.to, BlockMap.segment, hcode, BlockMap.append, hput]
  | define name body =>
    obtain ⟨before', after', hput⟩ :=
      put_around (by simp : BlockKey.name name ≠ .position p) (.nodes body) after
      before
    refine ⟨before', after', p, n, F, hF, hp, ?_⟩
    funext v
    simp [Write.to, BlockMap.define, hput]

/-- The code holds the text, and no block does. -/
def Free (F : String → String) (M : String → BlockMap) : Prop :=
  Wrap F ∧ ∃ m : BlockMap, m.Numbered ∧ M = fun _ => m

/-- The code holds the branch of the text, and no block does; or one segment does. -/
def Held (K : String → Prop) (F : String → String) (M : String → BlockMap) : Prop :=
  (Guarded K F ∧ ∃ m : BlockMap, m.Numbered ∧ M = fun _ => m) ∨
  ((∃ code, F = fun _ => code) ∧ Pocket K M)

theorem free_carrier : Carrier Free where
  wrap := fun h hw => ⟨hw.comp h.1, h.2⟩
  write := by
    rintro F _ ⟨hF, m, hm, rfl⟩ w
    exact ⟨hF, w.to m, numbered_write hm w, rfl⟩

theorem held_carrier : Carrier (Held K) where
  wrap := by
    rintro F w M (⟨hF, hM⟩ | ⟨⟨code, rfl⟩, hM⟩) hw
    · exact .inl ⟨hF.wrap hw, hM⟩
    · exact .inr ⟨⟨w code, rfl⟩, hM⟩
  write := by
    rintro F _ (⟨hF, m, hm, rfl⟩ | ⟨hF, hM⟩) w
    · exact .inl ⟨hF, w.to m, numbered_write hm w, rfl⟩
    · exact .inr ⟨hF, hM.write w⟩

/-- Where a block ends the segment, the branch is in that segment. -/
theorem Held.flush {F : String → String} {M : String → BlockMap} (h : Held K F M) :
    Held K (fun _ => "") fun v => (M v).segment (F v) := by
  rcases h with ⟨hF, m, hm, rfl⟩ | ⟨⟨code, rfl⟩, hM⟩
  · refine .inr ⟨⟨"", rfl⟩, m.entries, [], m.next, m.next + 1, F, hF, by omega, ?_⟩
    funext v
    have happend := hm.append_entries (F v)
    unfold BlockMap.segment
    rw [if_neg (hF.ne_empty v)]
    exact congrArg (BlockMap.mk · (m.next + 1)) happend
  · exact .inr ⟨⟨"", rfl⟩, hM.write (.segment code)⟩

/-! ### Branches -/

/-- The code may be emitted for the condition. -/
def CondCode (env : Env) (condition : Option Expr) (code : String) : Prop :=
  ∃ e s t, condition = some e ∧ exec (expr env e) s = (.ok code, t)

section
variable {env : Env} (hquiet : env.Quiet) {outer inner : Hole} {condition : Option Expr}
  {elseBody : Option (List Node)}

theorem text_carries (mode : Mode) : Carries Free id fun v => stmt env mode (.text v) := by
  intro s b _ _ hnum
  refine ⟨.ok, fun _ => b.blocks, s, .refl s, fun v => ?_,
    .inr ⟨id, fun _ => rfl, .refl, b.blocks, hnum, rfl⟩⟩
  dsimp only
  rw [stmt]
  rfl

include hquiet in
/-- A branch holds the text of its body. -/
theorem branch_carries (hlast : inner.isLast = true)
    (hhooks : ∀ v, ∀ n ∈ inner.path (.text v), env.compiler.handled (·.statement n) = none)
    (hext : ∀ y ∈ (Stmt.ifThen condition (inner.fill (.text "")) elseBody).statements,
      y.isExtending = false) :
    Carries (Held (CondCode env condition)) id
      fun v => stmt env .layout (.ifThen condition (inner.fill (.text v)) elseBody) := by
  simp only [Stmt.statements, List.forall_mem_cons, List.forall_mem_append] at hext
  have hbody : Carries Free id fun v => list env .layout (inner.fill (.text v)) :=
    list_carries (fun v => inner.isEmpty_fill _)
      (hole_carries hquiet free_carrier (fun _ => ⟨rfl, fun _ => rfl⟩)
      (text_carries .layout) (.inl hlast) hhooks hext.2.1)
  simp only [stmt]
  refine .before (Silent.writes (required_related (silent_congruence hquiet) _ condition))
    fun e he => ?_
  have hcond : condition = some e := by
    obtain ⟨s, t, he⟩ := he
    cases condition with
    | none => cases he
    | some e' => cases he; rfl
  refine .before (expr_silent hquiet e).writes fun cond hcode => ?_
  obtain ⟨s, t, hcode⟩ := hcode
  refine Carries.after id hbody (elseCode_writes hquiet _ hext.2.2)
    (w := fun other body => Code.ifOpen cond ++ body ++ other ++ Code.close)
      (fun other F M hF => ?_) held_carrier
  exact .inl ⟨⟨id, F, cond, other, .refl, hF.1, ⟨e, s, t, hcond, hcode⟩, rfl⟩, hF.2⟩

include hquiet in
/-- The blocks of a layout depend on a text in a branch in one segment, which is the branch's,
if no block follows the text. -/
theorem layout_guards (a : Bool) (d : Disk) (hlast : inner.isLast = true)
    (houter : ∀ v, ∀ n ∈ outer.path (.ifThen condition (inner.fill (.text v)) elseBody),
      env.compiler.handled (·.statement n) = none)
    (hinner : ∀ v, ∀ n ∈ inner.path (.text v), env.compiler.handled (·.statement n) = none)
    (hext : ∀ y ∈ Node.statements (outer.fill (.ifThen condition (inner.fill (.text "")) elseBody)),
      y.isExtending = false) :
    (∃ e, ∀ v, (exec (layout env (outer.fill (.ifThen condition (inner.fill (.text v)) elseBody)))
      (.initial a d)).1 = .error e) ∨
    ∃ M, Pocket (CondCode env condition) M ∧
      ∀ v, (exec (layout env (outer.fill (.ifThen condition (inner.fill (.text v)) elseBody)))
        (.initial a d)).1 = .ok (M v) := by
  have hbranch := branch_carries hquiet hlast hinner fun y hy => hext y (outer.statements_fill hy)
  have htree := hole_carries hquiet held_carrier (fun _ => ⟨rfl, fun _ => rfl⟩) hbranch
    (.inr Held.flush) houter hext
  have hcalm : Calm (State.initial a d) := ⟨rfl, rfl⟩
  let b : Backdrop := ⟨.empty, 0, 0, none⟩
  obtain ⟨r, M, t, hkept, hrun, hC⟩ :=
    htree (.initial a d) (b.deeper .layout) hcalm Nat.one_pos .empty
  have hlist :
      ∀ v, exec (list env .layout (outer.fill (.ifThen condition (inner.fill (.text v)) elseBody)))
      (.initial a d) = (r v, t.over (b.hold ((M v).segment ((r v).toOption.getD "")))) := by
    intro v
    have hreg : ∀ p, (r v).map (fun code => (code, true)) = .ok p →
        p.2 = (Mode.layout == .layout) := by
      cases r v <;> simp [Except.map]
    unfold list
    rw [outer.isEmpty_fill]
    refine (exec_sequence (b := b) hcalm hreg (hrun v)).trans ?_
    cases r v <;> rfl
  have hlayout :
      ∀ v, exec (layout env (outer.fill (.ifThen condition (inner.fill (.text v)) elseBody)))
      (.initial a d) = ((r v).map fun _ => (M v).segment ((r v).toOption.getD ""), _) := fun v =>
    exec_layout (hlist v) (hcalm.kept hkept).extended
  rcases hC with ⟨e, he⟩ | ⟨F, hF, hC⟩
  · refine .inl ⟨e, fun v => ?_⟩
    rw [hlayout v, he v]
    rfl
  · refine .inr ⟨fun v => (M v).segment (F v), ?_, fun v => ?_⟩
    · rcases hC.flush with ⟨hguarded, -⟩ | ⟨-, hpocket⟩
      · exact absurd rfl (hguarded.ne_empty "")
      · exact hpocket
    · rw [hlayout v, hF v]
      rfl

end

end Emit

/-! ### Layouts of a compiler -/

namespace Cellar

/-- A loop whose branch holds a switch over the stock, with blocks before and after. -/
def outer : Emit.Hole :=
  .inside [.mk (.text "Stock: ") .unknown] [.mk (.block "footer" []) .unknown] .unknown
    (.forIn "bottle" none (some (.var "rack")) none)
    (.here [.mk (.block "label" [.mk (.text "?") .unknown]) .unknown] [.mk (.block "price" []) .unknown] .unknown)

def inner : Emit.Hole :=
  .inside [.mk (.block "badge" []) .unknown] [.mk (.text "!") .unknown] .unknown
    (.switchOn (some (.var "year")))
    (.here [.mk .caseDefault .unknown] [.mk .breakLoop .unknown] .unknown)

def condition : Option Expr := some (.var "open")

/-- The text of a template is the text in its branch. -/
def compiler : Compiler :=
  { Compiler.initial with
    makeStem := some fun _ => "v"
    parse := fun text _ => .ok (outer.fill (.ifThen condition (inner.fill (.text text)) none)) }

end Cellar

namespace Compiler

/-- **A text in a branch stays in its branch.** A layout extends nothing, and no extension
takes over a text, the branch that it is in or a statement around it. If no block follows the
text in the lists of the branch that it is in, the blocks depend on the text in one segment
only. In that segment the text is in the code of its branch, after the condition. -/
theorem compileTree_guards {c : Compiler} {source : String} {text : String → String}
    {outer inner : Emit.Hole} {condition : Option Expr} {elseBody : Option (List Node)}
    (nested : String → Mode → DiskM Output) (d : Disk)
    (hparse : ∀ v, c.parse (text v) source =
      .ok (outer.fill (.ifThen condition (inner.fill (.text v)) elseBody)))
    (hext : ∀ v, ∀ y ∈ Node.statements
      (outer.fill (.ifThen condition (inner.fill (.text v)) elseBody)),
      y.isExtending = false)
    (hhooks : ∀ v, ∀ n ∈ outer.path (.ifThen condition (inner.fill (.text v)) elseBody) ++
      inner.path (.text v),
      c.handled (·.statement n) = none)
    (hlast : inner.isLast = true) :
    (∃ e, ∀ v, (exec (c.compileTree nested (text v) source .layout) d).1 = .error e) ∨
    ∃ before after p n w g cond rest, Emit.Wrap w ∧ Emit.Wrap g ∧
      Emit.CondCode (.outer c source nested) condition cond ∧
      ∀ v, (exec (c.compileTree nested (text v) source .layout) d).1 =
        .ok (.blocks ⟨before ++
          (.position p, .code (w (Code.ifOpen cond ++ g v ++ rest ++ Code.close))) :: after,
            n⟩) := by
  have hcompile : ∀ v, (exec (c.compileTree nested (text v) source .layout) d).1 =
      (exec (Emit.layout (.outer c source nested)
        (outer.fill (.ifThen condition (inner.fill (.text v)) elseBody)))
        (.initial c.options.autoescape d)).1.map .blocks := by
    intro v
    rw [exec_compileTree, hparse v]
    dsimp only
    rw [exec_emit, emitTree, exec_map]
  have hguards := Emit.layout_guards (Emit.quiet_outer c source nested) c.options.autoescape d hlast
    (fun v n hn => hhooks v n (List.mem_append_left _ hn))
      (fun v n hn => hhooks v n (List.mem_append_right _ hn))
    (hext "")
  rcases hguards with ⟨e, he⟩ | ⟨_,
    ⟨before, after, p, n, _, ⟨w, g, cond, rest, hw, hg, hcond, rfl⟩, -, rfl⟩, hM⟩
  · exact .inl ⟨e, fun v => by rw [hcompile v, he v]; rfl⟩
  · exact .inr ⟨before, after, p, n, w, g, cond, rest, hw, hg, hcond,
      fun v => by rw [hcompile v, hM v]; rfl⟩

/-- The branch stands between blocks in a loop, and a block stands before the text in it. -/
theorem compileTree_guards_cellar : Cellar.inner.isLast = true ∧
    ∃ before after p n w g cond rest, Emit.Wrap w ∧ Emit.Wrap g ∧
      Emit.CondCode (.outer Cellar.compiler "p" Cellar.compiler.nested) Cellar.condition cond ∧
      ∀ v, (exec (Cellar.compiler.compileTree Cellar.compiler.nested v "p" .layout) .empty).1 =
        .ok (.blocks ⟨before ++
          (.position p, .code (w (Code.ifOpen cond ++ g v ++ rest ++ Code.close))) :: after,
            n⟩) := by
  have hlast : Cellar.inner.isLast = true := rfl
  have hparse : ∀ v, Cellar.compiler.parse (id v) "p" =
      .ok (Cellar.outer.fill (.ifThen Cellar.condition (Cellar.inner.fill (.text v)) none)) :=
        fun _ => rfl
  have hext : ∀ v, ∀ y ∈ Node.statements (Cellar.outer.fill
      (.ifThen Cellar.condition (Cellar.inner.fill (.text v)) none)), y.isExtending = false := by
    simp [Cellar.outer, Cellar.inner, Emit.Hole.fill, Emit.Shell.fill, Node.statements,
      Node.statementsOption, Stmt.statements, Stmt.isExtending]
  have hempty :
      (exec (Cellar.compiler.compileTree Cellar.compiler.nested "" "p" .layout) .empty).1.isOk =
        true := by
    decide +kernel
  refine ⟨hlast, ?_⟩
  rcases compileTree_guards Cellar.compiler.nested .empty hparse hext
    (fun _ _ _ => rfl) hlast with ⟨e, he⟩ | h
  · have hfails :
        (exec (Cellar.compiler.compileTree Cellar.compiler.nested "" "p" .layout) .empty).1 =
          .error e :=
      he ""
    rw [hfails] at hempty
    cases hempty
  · exact h

/-- A text that a block follows in its branch is a segment without the branch. -/
theorem text_before_block_unguarded :
    (exec (({ Compiler.initial with
      parse := fun _ _ => .ok [.mk (.ifThen (some (.var "c"))
        [.mk (.text "secret") .unknown, .mk (.block "b" []) .unknown] none) .unknown] } :
          Compiler).compileSource
      "" "p" .layout) .empty).1 =
    .ok (.blocks ⟨[(.position 0, .code "secret"), (.name "b", .nodes []),
      (.position 1, .code "<?php if ($c) \x7b ?><?php \x7d ?>")], 2⟩) := by
  rfl

end Compiler
end Stencil
