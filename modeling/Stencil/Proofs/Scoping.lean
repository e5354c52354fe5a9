/-
# Where a switch of escaping counts

A switch counts for what is inside of it. A page inside of one switch is the page compiled
with the option that the switch gives; and wherever a print stands in a page, in branches,
loops, macros or blocks, it is escaped if the nearest switch around it is on, or the option
if there is none.

Key definitions: `Emit.Locus`, `Emit.Locus.setting`, `Plain.Framed`, `Emit.Placeless`.
Key theorems: `Emit.exec_page_autoescape`, `Plain.place_framed`, `Compiler.pageOf_scopes`.
-/
import Stencil.Proofs.Append
import Stencil.Proofs.Declining
import Stencil.Proofs.Success

namespace Stencil

namespace Emit

/-! ### The position of the statement around a list -/

/-- The emission does the same wherever the statement around it stands. -/
def Placeless {α : Type} (m : EmitM α) : Prop :=
  ∀ (s : State) (pos : Position),
    exec m { s with pos := pos } = ((exec m s).1, { (exec m s).2 with pos := pos })

namespace Placeless

variable {α β : Type} {m : EmitM α}

theorem pure (a : α) : Placeless (Pure.pure a : EmitM α) := fun _ _ => rfl

theorem bind {f : α → EmitM β} (h : Placeless m) (hf : ∀ a, Placeless (f a)) :
    Placeless (m >>= f) := by
  intro s pos
  rw [exec_bind, exec_bind, h]
  rcases exec m s with ⟨r, t⟩
  cases r with
  | error e => rfl
  | ok a => exact hf a t pos

theorem get_bind {f : State → EmitM α} (hf : ∀ s pos, f { s with pos := pos } = f s)
    (h : ∀ s, Placeless (f s)) : Placeless (get >>= f) := by
  intro s pos
  rw [exec_bind, exec_bind, exec_get, exec_get]
  dsimp only
  rw [hf]
  exact h s s pos

/-- A statement has a position of its own. -/
theorem inStmt (pos : Position) (m : EmitM α) : Placeless (Emit.inStmt pos m) := fun _ _ => rfl

theorem inList (counted : Bool) (h : Placeless m) : Placeless (Emit.inList counted m) := by
  intro s pos
  have hopen := h { s with level := s.level + 1, blockLevel := s.blockLevel + counted.toNat } pos
  unfold Emit.inList
  rw [exec_within, exec_within]
  dsimp only
  rw [hopen]

end Placeless

theorem segment_placeless (code : String) : Placeless (segment code) := by
  intro s pos
  rw [exec_segment, exec_segment]

theorem nodes_placeless (env : Env) (mode : Mode) (ns : List Node) :
    ∀ (registering : Bool) (code : String), Placeless (nodes env mode ns registering code) := by
  induction ns with
  | nil =>
    intro registering code
    rw [nodes]
    exact .pure _
  | cons n ns ih =>
    intro registering code
    obtain ⟨x, pos⟩ := n
    rw [nodes]
    refine Placeless.bind (.inStmt pos _) fun p => ?_
    obtain ⟨code, registering⟩ := p
    exact ih registering code

theorem list_placeless (env : Env) (mode : Mode) (ns : List Node) :
    Placeless (list env mode ns) := by
  unfold list sequence
  split
  · exact .pure _
  · refine .get_bind (fun _ _ => rfl) fun s => ?_
    refine Placeless.bind (.inList _ (nodes_placeless env mode ns _ "")) fun p => ?_
    obtain ⟨code, registering⟩ := p
    refine .get_bind (fun _ _ => rfl) fun t => ?_
    dsimp only
    split
    · exact (segment_placeless code).bind fun _ => .pure _
    · exact .pure _

/-! ### A page inside of one switch -/

/-- A page that extends nothing is what its statements emit. -/
theorem exec_page {env : Env} {tree : Template} {s t : State} {r : Except CompileError String}
    (h : exec (list env .page tree) s = (r, t)) (ht : t.extended = false) :
    exec (page env tree) s = (r, t) := by
  unfold page
  rw [exec_bind, h]
  cases r with
  | error e => rfl
  | ok code =>
    dsimp only
    rw [exec_bind, exec_get]
    dsimp only
    rw [ht]
    rfl

theorem Backdrop.inside_page (b : Backdrop) : b.Inside .page := by
  intro hmode
  cases hmode

/-- A page of one statement is what the statement emits one list further in. -/
theorem exec_page_single {env : Env} (hhooks : env.Unhooked) {x : Stmt} (hblock : x.isBlock = false)
    (hext : x.isExtending = false) {s t : State} (hs : Calm s) (ht : t.extended = false)
    {b : Backdrop} {pos : Position} {r : Except CompileError String}
    (h : exec (stmt env .page x) { s.over (b.deeper .page) with pos := pos } =
      (r, t.over (b.deeper .page))) :
    exec (page env [.mk x pos]) (s.over b) = (r, State.over { t with pos := s.pos } b) := by
  have hstep : exec (step env (.mk x pos) false "" (stmt env .page x)) (s.over (b.deeper .page)) =
      (r.map fun more => (more, false), State.over { t with pos := s.pos } (b.deeper .page)) := by
    refine (exec_step_inline (hhooks _) (.inl hblock) hext "" _ h).trans (Prod.ext ?_ rfl)
    simp only [String.empty_append]
  have hreg : ∀ p, (r.map fun more => (more, false)) = .ok p → p.2 = false := by
    cases r <;> simp [Except.map]
  have hnodes : exec (nodes env .page [.mk x pos] false "") (s.over (b.deeper .page)) = _ :=
    exec_nodes_single hstep
  have hlist : exec (list env .page [.mk x pos]) (s.over b) =
      (r, State.over { t with pos := s.pos } b) := by
    refine (exec_sequence_over (m := b.blocks) hs b.inside_page hreg hnodes).trans (Prod.ext ?_ rfl)
    cases r <;> rfl
  exact exec_page hlist ht

section
variable {env : Env} {ns : List Node} (hquiet : env.Quiet) (hhooks : env.Unhooked)
  (hext : ∀ y ∈ Node.statements ns, y.isExtending = false)
include hquiet hhooks hext

/-- A list of a page does the same before all backdrops. -/
theorem exec_list_over {s : State} (hs : Calm s) :
    ∃ r t, Kept s t ∧ ∀ b : Backdrop, exec (list env .page ns) (s.over b) = (r, t.over b) := by
  have hmirrors : Mirrors s.autoescape .page s.autoescape (list env .page ns) _ :=
    list_mirrors hext (nodes_mirrors hquiet hhooks ns .page s.autoescape hext "")
  obtain ⟨ws, r, t, hkept, hws, hlist⟩ := hmirrors s hs rfl
  rw [hws.page rfl] at hlist
  exact ⟨r, t, hkept, fun b => (hlist b b.inside_page).1⟩

/-- A switch around a page does what starting the page with this setting does. -/
theorem exec_page_autoescape (a b : Bool) (pos : Position) (d : Disk) :
    exec (page env [.mk (.autoescape (some b) ns) pos]) (.initial a d) =
      ((exec (page env ns) (.initial b d)).1,
        { (exec (page env ns) (.initial b d)).2 with autoescape := a }) := by
  -- The list inside of the switch differs from the page in its backdrop and in the position around
  -- it.
  obtain ⟨r, t, hkept, hlist⟩ := exec_list_over hquiet hhooks hext (s := .initial b d) ⟨rfl, rfl⟩
  let outside : Backdrop := ⟨.empty, 0, 0, none⟩
  let inside : Backdrop := outside.deeper .page
  have hdirect : exec (page env ns) (.initial b d) = (r, t.over outside) :=
    exec_page (hlist outside) hkept.extended
  have hbody : exec (stmt env .page (.autoescape (some b) ns))
      { State.over (.initial a d) inside with pos := pos } =
        (r, State.over { t with pos := pos, autoescape := a } inside) := by
    rw [stmt, required, pure_bind, inAutoescape, exec_within]
    have hmoved := list_placeless env .page ns (State.over (.initial b d) inside) pos
    rw [hlist inside] at hmoved
    exact congrArg (fun x => (x.1, { x.2 with autoescape := a })) hmoved
  have hpos : t.pos = .unknown := hkept.pos
  have hwhole : exec (page env [.mk (.autoescape (some b) ns) pos])
      (State.over (.initial a d) outside) = _ :=
    exec_page_single (t := { t with pos := pos, autoescape := a }) hhooks rfl rfl
      ⟨rfl, rfl⟩ hkept.extended hbody
  rw [hdirect]
  refine hwhole.trans (Prod.ext rfl ?_)
  show State.over { t with autoescape := a, pos := .unknown } outside = _
  rw [← hpos]
  rfl

end

/-! ### Places in a page -/

/-- A statement without one of its bodies, which may be that of a block. -/
inductive Frame where
  | shell (shell : Shell)
  | block (name : String)

/-- The statement with this body. -/
def Frame.fill (ns : List Node) : Frame → Stmt
  | .shell s => s.fill ns
  | .block name => .block name ns

/-- The setting that the statement gives, if it is a switch. -/
def Frame.switch? : Frame → Option Bool
  | .shell (.autoescape enabled) => enabled
  | _ => none

/-- How many loops are opened: one by a loop. -/
def Frame.loops : Frame → Nat
  | .shell (.forIn ..) => 1
  | _ => 0

/-- A place in a list of nodes or in the body of one of them, blocks included. -/
inductive Locus where
  | here (before after : List Node) (pos : Position)
  | inside (before after : List Node) (pos : Position) (frame : Frame) (place : Locus)

namespace Locus

/-- The nodes with this statement in the place. -/
def fill (x : Stmt) : Locus → List Node
  | .here before after pos => before ++ .mk x pos :: after
  | .inside before after pos frame place => before ++ .mk (frame.fill (place.fill x)) pos :: after

/-- What the switches around the place give, from the outermost to the nearest. -/
def switches : Locus → List Bool
  | .here .. => []
  | .inside _ _ _ frame place => frame.switch?.toList ++ place.switches

/-- The setting in the place, if the nodes are under the setting `a`: what the nearest switch
around it gives. -/
def setting (a : Bool) (place : Locus) : Bool := place.switches.getLastD a

/-- How many loops the place is in. -/
def loops : Locus → Nat
  | .here .. => 0
  | .inside _ _ _ frame place => frame.loops + place.loops

theorem setting_inside (a : Bool) (before after : List Node) (pos : Position) (frame : Frame)
    (place : Locus) :
    (Locus.inside before after pos frame place).setting a =
      place.setting (frame.switch?.getD a) := by
  unfold setting
  rw [switches]
  cases frame.switch? with
  | none => rfl
  | some b => exact List.getLastD_cons

end Locus

end Emit

/-- A statement is the one in the frame, or in a place of its body. -/
theorem Emit.Frame.exists_place {ns : List Node} {x : Stmt} (frame : Emit.Frame)
    (hbody : x ∈ Node.statements ns → ∃ place : Emit.Locus, place.fill x = ns)
    (h : x ∈ frame.fill ns :: Node.statements ns) :
    x = frame.fill ns ∨ ∃ (other : Emit.Frame) (place : Emit.Locus), frame.fill ns =
      other.fill (place.fill x) := by
  rcases List.mem_cons.1 h with h | h
  · exact .inl h
  · obtain ⟨place, rfl⟩ := hbody h
    exact .inr ⟨frame, place, rfl⟩

mutual

theorem Stmt.exists_frame : ∀ {s x : Stmt}, x ∈ s.statements →
    x = s ∨ ∃ (frame : Emit.Frame) (place : Emit.Locus), s = frame.fill (place.fill x)
  | .ifThen c b e, x, h => by
    rw [Stmt.statements, List.mem_cons, List.mem_append] at h
    rcases h with h | h | h
    · exact .inl h
    · exact Emit.Frame.exists_place (.shell (.ifBody c e)) Node.exists_place
        (List.mem_cons_of_mem _ h)
    · cases e with
      | none => cases h
      | some ns =>
        exact Emit.Frame.exists_place (.shell (.ifElse c b)) Node.exists_place
          (List.mem_cons_of_mem _ h)
  | .switchOn e _, x, h => Emit.Frame.exists_place (.shell (.switchOn e)) Node.exists_place h
  | .forIn t k i g _, x, h => Emit.Frame.exists_place (.shell (.forIn t k i g)) Node.exists_place h
  | .block n _, x, h => Emit.Frame.exists_place (.block n) Node.exists_place h
  | .macroDef n ps _, x, h => Emit.Frame.exists_place (.shell (.macroDef n ps)) Node.exists_place h
  | .autoescape f _, x, h => Emit.Frame.exists_place (.shell (.autoescape f)) Node.exists_place h
  | .cached k l _, x, h => Emit.Frame.exists_place (.shell (.cached k l)) Node.exists_place h
  | .text _, x, h | .echo _, x, h | .elseIf _, x, h | .caseOf _, x, h | .caseDefault, x, h
  | .forElse, x, h | .assign _, x, h | .extending _, x, h | .including .., x, h | .evaluate _, x, h
  | .returning _, x, h | .continueLoop, x, h | .breakLoop, x, h
  | .unknown, x, h => .inl (List.mem_singleton.1 h)

/-- Each statement of a list of nodes, at any depth, is in a place of it. -/
theorem Node.exists_place : ∀ {ns : List Node} {x : Stmt}, x ∈ Node.statements ns →
    ∃ place : Emit.Locus, place.fill x = ns
  | .mk s pos :: rest, x, h => by
    rw [Node.statements, List.mem_append] at h
    rcases h with h | h
    · rcases Stmt.exists_frame h with rfl | ⟨frame, place, rfl⟩
      · exact ⟨.here [] rest pos, rfl⟩
      · exact ⟨.inside [] rest pos frame place, rfl⟩
    · obtain ⟨place, rfl⟩ := Node.exists_place h
      cases place with
      | here before after p => exact ⟨.here (.mk s pos :: before) after p, rfl⟩
      | inside before after p frame place =>
        exact ⟨.inside (.mk s pos :: before) after p frame place, rfl⟩

end

theorem Emit.Frame.statements_fill {ns : List Node} {x : Stmt} (frame : Emit.Frame)
    (h : x ∈ Node.statements ns) : x ∈ (frame.fill ns).statements := by
  cases frame with
  | block name => exact List.mem_cons_of_mem _ h
  | shell s =>
    cases s with
    | ifBody condition elseBody => exact List.mem_cons_of_mem _ (List.mem_append_left _ h)
    | ifElse condition body => exact List.mem_cons_of_mem _ (List.mem_append_right _ h)
    | _ => exact List.mem_cons_of_mem _ h

theorem Emit.Locus.mem_statements_fill (x : Stmt) (place : Emit.Locus) :
    x ∈ Node.statements (place.fill x) := by
  induction place with
  | here before after pos =>
    rw [fill, Node.statements_append, Node.statements]
    exact List.mem_append_right _ (List.mem_append_left _ x.mem_statements)
  | inside before after pos frame place ih =>
    rw [fill, Node.statements_append, Node.statements]
    exact List.mem_append_right _ (List.mem_append_left _ (frame.statements_fill ih))

/-- The statements of a list of nodes are those in a place of it. -/
theorem Node.mem_statements_iff {ns : List Node} {x : Stmt} :
    x ∈ Node.statements ns ↔ ∃ place : Emit.Locus, place.fill x = ns := by
  constructor
  · exact Node.exists_place
  · rintro ⟨place, rfl⟩
    exact place.mem_statements_fill x

theorem Emit.Frame.isForElse_fill (frame : Emit.Frame) (ns : List Node) (pos : Position) :
    (Node.mk (frame.fill ns) pos).isForElse = false := by
  cases frame with
  | block name => rfl
  | shell s => cases s <;> rfl

theorem Emit.Frame.usesLoop_congr (frame : Emit.Frame) {ns ms : List Node}
    (h : Node.usesLoop ns = Node.usesLoop ms) :
    (frame.fill ns).usesLoop = (frame.fill ms).usesLoop := by
  cases frame with
  | block name => exact h
  | shell s => cases s <;> simp [fill, Emit.Shell.fill, Stmt.usesLoop, Node.usesLoopOption, h]

section
variable {x y : Stmt} (place : Emit.Locus)

/-- What uses the record of a loop around a place is told from the statement in it. -/
theorem Emit.Locus.usesLoop_congr (h : x.usesLoop = y.usesLoop) :
    Node.usesLoop (place.fill x) = Node.usesLoop (place.fill y) := by
  induction place with
  | here before after pos => simp [fill, Node.usesLoop_append, Node.usesLoop, h]
  | inside before after pos frame place ih =>
    simp [fill, Node.usesLoop_append, Node.usesLoop, frame.usesLoop_congr ih]

theorem Emit.Locus.any_isForElse_congr
    (h : ∀ pos, (Node.mk x pos).isForElse = (Node.mk y pos).isForElse) :
    (place.fill x).any Node.isForElse = (place.fill y).any Node.isForElse := by
  cases place with
  | here before after pos => simp [fill, h]
  | inside before after pos frame place => simp [fill, frame.isForElse_fill]

end

/-! ### Code around a place -/

namespace Plain

open Emit (Frame Locus Wrap)

/-- For all indices there is no first code, or it is the second with code put around it, the
same for all of them. -/
def Framed {ι : Type} (f g : ι → Option String) : Prop :=
  (∀ i, f i = none) ∨ ∃ w, Wrap w ∧ ∀ i, f i = (g i).map w

section
variable {ι β : Type} {f g h : ι → Option String}

theorem Framed.refl (f : ι → Option String) : Framed f f := .inr ⟨_, .refl, fun i => by simp⟩

theorem Framed.trans (hfg : Framed f g) (hgh : Framed g h) : Framed f h := by
  rcases hfg with hf | ⟨w, hw, hf⟩
  · exact .inl hf
  · rcases hgh with hg | ⟨w', hw', hg⟩
    · exact .inl fun i => by rw [hf, hg]; rfl
    · exact .inr ⟨_, hw.comp hw', fun i => by rw [hf, hg, Option.map_map]; rfl⟩

/-- Something before that is the same for all indices. -/
theorem Framed.before {p : Option β} {f : β → ι → Option String} (hf : ∀ x, Framed (f x) g) :
    Framed (fun i => p >>= fun x => f x i) g := by
  cases p with
  | none => exact .inl fun _ => rfl
  | some x => exact hf x

/-- Something after that is the same for all indices, and code made of both. -/
theorem Framed.after (hf : Framed f g) (q : Option β) {w : β → String → String}
    (hw : ∀ x, Wrap (w x)) :
    Framed (fun i => f i >>= fun code => q >>= fun x => some (w x code)) g := by
  cases q with
  | none => exact .inl fun i => by dsimp only; cases f i <;> rfl
  | some x => exact Framed.trans (.inr ⟨w x, hw x, fun i => by dsimp only; cases f i <;> rfl⟩) hf

theorem Framed.wrap (hf : Framed f g) {w : String → String} (hw : Wrap w) :
    Framed (fun i => f i >>= fun code => some (w code)) g :=
  hf.after (some ()) fun _ => hw

/-- A statement puts code around its body. -/
theorem frame_framed (S : Site) (frame : Frame) {ns : ι → List Node} (start : ι)
    (huses : ∀ i, Node.usesLoop (ns i) = Node.usesLoop (ns start))
    (hbranch : ∀ i, (ns i).any Node.isForElse = (ns start).any Node.isForElse) (k : Spot) :
    ∃ k' : Spot, k'.autoescape = frame.switch?.getD k.autoescape ∧
      k'.depth = k.depth + frame.loops ∧
      Framed (fun i => stmt? S k (frame.fill (ns i))) fun i => nodes? S k' (ns i) := by
  cases frame with
  | block name => exact ⟨k, rfl, rfl, .refl _⟩
  | shell s =>
    cases s with
    | ifBody condition elseBody =>
      refine ⟨k.using (Expr.usesLoopOption condition), rfl, rfl, ?_⟩
      simp only [Frame.fill, Emit.Shell.fill, stmt?, huses]
      refine .before fun e => .before fun cond => ?_
      exact (Framed.refl _).after _ fun other => .after _ (.between _ _)
    | ifElse condition body =>
      refine ⟨k.using (Expr.usesLoopOption condition || Node.usesLoop body), rfl, rfl, ?_⟩
      simp only [Frame.fill, Emit.Shell.fill, stmt?, elseCode?, bind_assoc]
      refine .before fun e => .before fun cond => .before fun code => ?_
      exact (Framed.refl _).wrap (.after _ (.before _ (.before _ .refl)))
    | switchOn subject =>
      refine ⟨k.using (Expr.usesLoopOption subject), rfl, rfl, ?_⟩
      simp only [Frame.fill, Emit.Shell.fill, stmt?]
      refine .before fun e => .before fun code => ?_
      exact (Framed.refl _).wrap (.after _ (.before _ (.tidy .refl)))
    | forIn target key iterable guard =>
      simp only [Frame.fill, Emit.Shell.fill, stmt?, huses, hbranch]
      cases S.stem? with
      | none =>
        exact ⟨k.enter "" false false, rfl, rfl, .inl fun i => by cases iterable <;> rfl⟩
      | some stem =>
        refine ⟨(k.enter (stem ++ toString (k.depth + 1)) guard.isSome
          ((ns start).any Node.isForElse)).using (Expr.usesLoopOption guard), rfl, rfl, ?_⟩
        refine .before fun e => ?_
        simp only [Option.bind_eq_bind, Option.bind_some]
        refine .before fun source => .before fun g => (Framed.refl _).wrap ?_
        exact Emit.wrap_loop ⟨_, source, target, key, g, "", _, _⟩
    | macroDef name params =>
      refine ⟨k.using (params.any (Expr.usesLoopOption ·.fallback)), rfl, rfl, ?_⟩
      simp only [Frame.fill, Emit.Shell.fill, stmt?]
      exact .before fun given => (Framed.refl _).wrap (.between _ _)
    | autoescape enabled =>
      cases enabled with
      | none => exact ⟨k, rfl, rfl, .inl fun i => rfl⟩
      | some b => exact ⟨{ k with autoescape := b }, rfl, rfl, .refl _⟩
    | cached key lifetime =>
      refine ⟨k.using (Expr.usesLoopOption key || Expr.usesLoopOption lifetime), rfl, rfl, ?_⟩
      simp only [Frame.fill, Emit.Shell.fill, stmt?]
      refine .before fun e => .before fun code => .before fun life => ?_
      exact (Framed.refl _).wrap (.between _ _)

/-- A list puts code around each of its statements. -/
theorem nodes_framed (S : Site) (before after : List Node) (pos : Position) {x : ι → Stmt}
    (start : ι) (huses : ∀ i, (x i).usesLoop = (x start).usesLoop) (k : Spot) :
    Framed (fun i => nodes? S k (before ++ .mk (x i) pos :: after))
      fun i => stmt? S (k.using (Node.usesLoop before)) (x i) := by
  simp only [nodes?_append, nodes?, huses]
  refine .before fun code => ?_
  exact ((Framed.refl _).after _ fun more => .after more .refl).wrap (.before code .refl)

/-- What a place is in puts code around the statement in it. There, the setting is that of the
nearest switch. -/
theorem place_framed (S : Site) {x : ι → Stmt} (start : ι)
    (huses : ∀ i, (x i).usesLoop = (x start).usesLoop)
    (helse : ∀ i pos, (Node.mk (x i) pos).isForElse = false) (place : Locus) : ∀ k : Spot,
    ∃ k' : Spot, k'.autoescape = place.setting k.autoescape ∧ k'.depth = k.depth + place.loops ∧
      Framed (fun i => nodes? S k (place.fill (x i))) fun i => stmt? S k' (x i) := by
  induction place with
  | here before after pos =>
    exact fun k =>
      ⟨k.using (Node.usesLoop before), rfl, rfl, nodes_framed S before after pos start huses k⟩
  | inside before after pos frame place ih =>
    intro k
    have hbody : ∀ i, Node.usesLoop (place.fill (x i)) = Node.usesLoop (place.fill (x start)) :=
      fun i => place.usesLoop_congr (huses i)
    have hbranch : ∀ i, (place.fill (x i)).any Node.isForElse =
        (place.fill (x start)).any Node.isForElse :=
      fun i => place.any_isForElse_congr fun pos => (helse i pos).trans (helse start pos).symm
    obtain ⟨k₁, hset₁, hdepth₁, hframe⟩ :=
      frame_framed S frame start hbody hbranch (k.using (Node.usesLoop before))
    obtain ⟨k', hset, hdepth, hplace⟩ := ih k₁
    refine ⟨k', ?_, ?_, ?_⟩
    · rw [hset, hset₁, Locus.setting_inside]
      rfl
    · rw [hdepth, hdepth₁, Locus.loops, Spot.using_depth, Nat.add_assoc]
    · refine (nodes_framed S before after pos start (fun i => ?_) k).trans (hframe.trans hplace)
      exact frame.usesLoop_congr (hbody i)

end

end Plain

/-! ### Pages -/

/-- The compiler with escaping on or off from the start. -/
def Compiler.escaping (c : Compiler) (a : Bool) : Compiler :=
  { c with options := { c.options with autoescape := a } }

namespace Compiler

/-- The option does not matter for a page that starts with a setting of its own. -/
theorem exec_page_escaping (c : Compiler) (a b start : Bool) (source : String) (d : Disk)
    (nested₁ nested₂ : String → Mode → DiskM Output) {ns : List Node}
    (hlinks : Node.links ns = []) :
    exec (Emit.page (.outer (c.escaping a) source nested₁) ns) (.initial start d) =
      exec (Emit.page (.outer (c.escaping b) source nested₂) ns) (.initial start d) := by
  have hsimilar : Emit.Similar Eq (fun _ => False) (.outer (c.escaping a) source nested₁)
      (.outer (c.escaping b) source nested₂) :=
    .outer ⟨rfl, fun _ => rfl, fun _ _ _ => rfl, fun _ _ _ => rfl, fun _ => rfl, rfl, rfl, rfl,
      rfl, .pure _,
      fun _ _ h => h.elim⟩
  refine Emit.exec_eq_of_agrees (Emit.page_agrees hsimilar ns ?_) (Emit.alike_initial start rfl)
  simp [hlinks]

section
variable {c : Compiler} {source : String} {ns : List Node} (hext : c.extensions = [])
include hext

/-- A page inside of a switch compiles to what the page does with the option that the switch
gives, or fails with the same error. -/
theorem pageOf_autoescape (hns : ∀ x ∈ Node.statements ns, x.isLinked = false) (a b : Bool)
    (pos : Position) (d : Disk) :
    (c.escaping a).pageOf source d [.mk (.autoescape (some b) ns) pos] =
      (c.escaping b).pageOf source d ns := by
  have hlinks : Node.links ns = [] :=
    List.filterMap_eq_nil_iff.2 fun x hx => Stmt.link?_of_isLinked (hns x hx)
  have hhooks : (Emit.Env.outer (c.escaping a) source (c.escaping a).nested).Unhooked :=
    fun n => handled_eq_none hext _
  have hpage := Emit.exec_page_autoescape
    (Emit.quiet_outer (c.escaping a) source (c.escaping a).nested) hhooks
    (fun x hx => Stmt.isExtending_of_isLinked (hns x hx)) a b pos d
  unfold pageOf
  rw [exec_emit, exec_emit]
  dsimp only
  calc
    (exec (Emit.page (.outer (c.escaping a) source (c.escaping a).nested)
        [.mk (.autoescape (some b) ns) pos]) (.initial a d)).1
      = (exec (Emit.page (.outer (c.escaping a) source (c.escaping a).nested) ns)
        (.initial b d)).1 := by
        rw [hpage]
    _ = (exec (Emit.page (.outer (c.escaping b) source (c.escaping b).nested) ns)
      (.initial b d)).1 := by
        rw [exec_page_escaping c a b b source d _ _ hlinks]

theorem nodes?_of_pageOf {a : Bool} {d : Disk} {code : String} (hlinks : Node.links ns = [])
    (h : (c.escaping a).pageOf source d ns = .ok code) :
    Plain.nodes? (c.site source) (.outermost a) ns = some code := by
  have hext' : (c.escaping a).extensions = [] := hext
  exact ((pageOf_eq_ok_iff hext' hlinks).1 h).1

/-- In a page that compiles, a print is escaped if the setting in its place is on. The code
around it does not depend on what is printed, but for its use of the record of a loop. -/
theorem pageOf_print (source : String) (place : Emit.Locus) (a uses : Bool) :
    ∃ w, Emit.Wrap w ∧ ∀ (d : Disk) (e : Expr) (code : String), e.isSuper = false →
      e.usesLoop = uses →
      Node.links (place.fill (.echo (some e))) = [] →
      (c.escaping a).pageOf source d (place.fill (.echo (some e))) = .ok code →
      ∃ value, Plain.expr? (c.site source) place.loops e = some value ∧
        code = w (if place.setting a then Code.printEscaped value else Code.print value) := by
  -- Any expression that uses the record alike does as the one the others are compared with.
  let start : { e : Expr // e.usesLoop = uses } :=
    ⟨if uses then .var "loop" else .null, by cases uses <;> rfl⟩
  obtain ⟨k, hset, hdepth, hframed⟩ := Plain.place_framed (c.site source)
    (x := fun e : { e : Expr // e.usesLoop = uses } => .echo (some e.1)) start
    (fun e => e.2.trans start.2.symm) (fun _ _ => rfl) place (.outermost a)
  rcases hframed with hnone | ⟨w, hw, hcode⟩
  · refine ⟨id, .refl, fun d e code _ huses hlinks hpage => ?_⟩
    cases (hnone ⟨e, huses⟩).symm.trans (nodes?_of_pageOf hext hlinks hpage)
  · refine ⟨w, hw, fun d e code hsuper huses hlinks hpage => ?_⟩
    have hplain := (hcode ⟨e, huses⟩).symm.trans (nodes?_of_pageOf hext hlinks hpage)
    obtain ⟨printed, hprinted, rfl⟩ := Option.map_eq_some_iff.1 hplain
    obtain ⟨value, hvalue, rfl⟩ := Option.map_eq_some_iff.1 hprinted
    refine ⟨value, ?_, ?_⟩
    · rw [hdepth] at hvalue
      simpa [Plain.Spot.outermost] using hvalue
    · rw [hset, hsuper]
      rfl

/-- Switches count for what is inside of them, in pages that extend and include nothing. A page
inside of one is the page compiled with the option that the switch gives: the code is the same,
or the error. Each statement of a page has a place in it; and a print there, unless it is a call of
the parent's block, is escaped if the nearest switch around the place is on, or the option if there
is none, whatever else is in the page. -/
theorem pageOf_scopes (source : String) :
    (∀ (ns : List Node) (a b : Bool) (pos : Position) (d : Disk),
      (∀ x ∈ Node.statements ns, x.isLinked = false) →
      (c.escaping a).pageOf source d [.mk (.autoescape (some b) ns) pos] =
      (c.escaping b).pageOf source d ns) ∧
    (∀ (ns : List Node) (x : Stmt), x ∈ Node.statements ns ↔
      ∃ place : Emit.Locus, place.fill x = ns) ∧
    ∀ (place : Emit.Locus) (a uses : Bool), ∃ w, Emit.Wrap w ∧
      ∀ (d : Disk) (e : Expr) (code : String), e.isSuper = false → e.usesLoop = uses →
        (∀ x ∈ Node.statements (place.fill (.echo (some e))), x.isLinked = false) →
        (c.escaping a).pageOf source d (place.fill (.echo (some e))) = .ok code →
        ∃ value, Plain.expr? (c.site source) place.loops e = some value ∧
          code = w (if place.switches.getLastD a then Code.printEscaped value
            else Code.print value) := by
  refine ⟨fun ns a b pos d hns => pageOf_autoescape hext hns a b pos d,
    fun ns x => Node.mem_statements_iff,
    fun place a uses => ?_⟩
  obtain ⟨w, hw, hprint⟩ := pageOf_print hext source place a uses
  refine ⟨w, hw, fun d e code hsuper huses hlinked hpage => hprint d e code hsuper huses ?_ hpage⟩
  exact List.filterMap_eq_nil_iff.2 fun x hx => Stmt.link?_of_isLinked (hlinked x hx)

end

end Compiler

namespace Lantern

/-- In a loop in a block, with a switch in the loop and the opposite one around the block, and
others before and after them. -/
def place (near : Bool) : Emit.Locus :=
  .inside [.mk (.autoescape (some true) [.mk (.echo (some (.var "a"))) .unknown]) .unknown] []
    .unknown (.shell (.autoescape (some !near))) <|
  .inside [] [.mk (.autoescape (some true) []) .unknown] .unknown (.block "lamp") <|
  .inside [] [] .unknown (.shell (.forIn "x" none (some (.var "xs")) none)) <|
  .inside [] [.mk .forElse .unknown] .unknown (.shell (.autoescape (some near))) <|
  .here [] [] .unknown

/-- What is printed there is of the record of the loop. -/
def value : Expr := .property (.var "loop") (.var "index")

def tree (near : Bool) : Template := (place near).fill (.echo (some value))

theorem not_linked (near : Bool) : ∀ x ∈ Node.statements (tree near), x.isLinked = false := by
  cases near <;> decide +kernel

/-- The tree compiles with the option that is the opposite of the nearest switch. -/
theorem compiles (near : Bool) :
    ∃ code, (Compiler.initial.escaping !near).pageOf "x" .empty (tree near) = .ok code := by
  have hsome : (Plain.nodes? ((Compiler.initial.escaping !near).site "x") (.outermost !near)
      (tree near)).isSome = true := by
    cases near <;> decide +kernel
  obtain ⟨code, hcode⟩ := Option.isSome_iff_exists.1 hsome
  have hlinks : Node.links (tree near) = [] := by cases near <;> decide +kernel
  exact ⟨code, (Compiler.pageOf_eq_ok_iff rfl hlinks).2 ⟨hcode, by cases near <;> decide +kernel⟩⟩

end Lantern

/-- The page inside of a switch, and the print in it: escaped where the nearest switch is on and
the others and the option are off, and left as it is where they are the other way round. -/
theorem Compiler.pageOf_scopes_lantern :
    (Compiler.initial.escaping false).pageOf "x" .empty
        [.mk (.autoescape (some true) (Lantern.tree false)) .unknown] =
      (Compiler.initial.escaping true).pageOf "x" .empty (Lantern.tree false) ∧
    (∃ w value code, Emit.Wrap w ∧
      (Compiler.initial.escaping false).pageOf "x" .empty (Lantern.tree true) = .ok code ∧
      Plain.expr? (Compiler.initial.site "x") 1 Lantern.value = some value ∧
      code = w (Code.printEscaped value)) ∧
    ∃ w value code, Emit.Wrap w ∧
      (Compiler.initial.escaping true).pageOf "x" .empty (Lantern.tree false) = .ok code ∧
      Plain.expr? (Compiler.initial.site "x") 1 Lantern.value = some value ∧
      code = w (Code.print value) := by
  obtain ⟨hswitch, -, hprint⟩ := pageOf_scopes (c := Compiler.initial) rfl "x"
  refine ⟨hswitch (Lantern.tree false) false true .unknown .empty
    (Lantern.not_linked false), ?_, ?_⟩
  · obtain ⟨code, hcode⟩ := Lantern.compiles true
    obtain ⟨w, hw, hescaped⟩ := hprint (Lantern.place true) false true
    obtain ⟨value, hvalue, hprinted⟩ :=
      hescaped .empty Lantern.value code rfl rfl (Lantern.not_linked true) hcode
    exact ⟨w, value, code, hw, hcode, hvalue, hprinted⟩
  · obtain ⟨code, hcode⟩ := Lantern.compiles false
    obtain ⟨w, hw, hraw⟩ := hprint (Lantern.place false) true true
    obtain ⟨value, hvalue, hprinted⟩ :=
      hraw .empty Lantern.value code rfl rfl (Lantern.not_linked false) hcode
    exact ⟨w, value, code, hw, hcode, hvalue, hprinted⟩

end Stencil
