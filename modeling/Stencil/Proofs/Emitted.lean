/-
# Emissions give plain code

An emission in which no other template is named and no extension is asked gives
the plain code of its tree, and fails exactly if there is none or a macro is
defined twice. It leaves the state as it was but for the macros, the loop stem
and the record of loops. `Emits` says this of one computation at one spot, in
both directions; it is kept by putting computations together, so it holds of
whole trees by one pass over them.

A tree may be emitted in place of a block that it overrides. Where it prints the
block of the parent, something else is emitted; `Scene.plug` is a statement that
stands for it.

Key definitions: `Emit.Scene`, `Emit.At`, `Emit.Moved`, `Emit.Yields`, `Emit.Emits`.
Key theorems: `Emit.Emits.bind`, `Emit.expr_emits`.
-/
import Stencil.Proofs.Exec
import Stencil.Proofs.Plain

namespace Stencil

theorem Compiler.handled_eq_none {c : Compiler} (hext : c.extensions = [])
    (hook : Extension → Option String) :
    c.handled hook = none := by
  simp [handled, firstHandled, hext]

namespace Emit

open Plain (Spot)

/-! ### What emissions do to the state -/

/-- What does not change while a tree is emitted. -/
structure Scene where
  env : Env
  mode : Mode
  /-- The tree has no blocks. -/
  bare : Bool
  /-- The block that is overridden. -/
  block : Option String
  parent : Option BlockMap
  /-- What stands for printing the parent's block, if that is not quiet. -/
  plug : Option Stmt
  /-- No expression is open. -/
  resting : Bool

namespace Scene

/-- What the code of the tree depends on. -/
def site (K : Scene) : Plain.Site := K.env.compiler.site K.env.source

/-- A call of the parent's block gives an empty text. -/
def Quiet (K : Scene) : Prop :=
  ∀ s : State, s.currentBlock = K.block → s.parent = K.parent →
    exec K.env.superBlock s = (.ok "''", s)

/-- The expression may stand in the tree: where calls of the parent's block are not
quiet there are none, apart from printing it. -/
def admits (K : Scene) (e : Expr) : Bool := K.plug.isNone || !e.isSuper

/-- No extensions are asked, and calls of the parent's block are quiet unless
something stands for them. -/
structure Simple (K : Scene) : Prop where
  extensions : K.env.compiler.extensions = []
  quiet : K.plug = none → K.Quiet

/-- The scene while an expression is open. -/
def busy (K : Scene) : Scene := { K with resting := false }

/-- A simple scene in which an expression is open. -/
structure Busy (K : Scene) : Prop extends K.Simple where
  resting : K.resting = false

theorem Simple.busy {K : Scene} (H : K.Simple) : K.busy.Busy := ⟨⟨H.extensions, H.quiet⟩, rfl⟩

theorem Simple.handled {K : Scene} (H : K.Simple) (hook : Extension → Option String) :
    K.env.compiler.handled hook = none :=
  Compiler.handled_eq_none H.extensions hook

end Scene

/-- The state is that of the scene at a spot. Blocks are emitted in place, since
nothing is extended, or there are none and the list is not an outermost one. -/
structure At (K : Scene) (k : Spot) (s : State) : Prop where
  autoescape : s.autoescape = k.autoescape
  depth : s.loopLevel = k.depth
  branch : s.branches.lookup k.depth = k.branch
  used : s.recorded.contains k.depth = k.used
  stem : ∀ x, s.stem = some x → K.site.stem? = some x
  block : s.currentBlock = K.block
  parent : s.parent = K.parent
  inline : (K.mode = .page ∧ s.extended = false) ∨ (K.bare = true ∧ 0 < s.blockLevel)
  rest : K.resting = true → s.exprLevel = 0

/-- From `s` to `s'` macros have been defined and loops recorded, up to the spot `k`.
What is known of loops further out is the same. -/
structure Moved (K : Scene) (k : Spot) (names : List String) (s s' : State) : Prop where
  frame : s' = { s with
    recorded := s'.recorded, branches := s'.branches, macros := s'.macros, stem := s'.stem }
  recorded : ∀ x < k.depth, s'.recorded.contains x = s.recorded.contains x
  used : s'.recorded.contains k.depth = k.used
  branches : ∀ x ≤ k.depth, s'.branches.lookup x = s.branches.lookup x
  macros : ∀ n, n ∈ s'.macros ↔ n ∈ names ∨ n ∈ s.macros
  stem : ∀ x, s'.stem = some x → K.site.stem? = some x

/-- The macro names can be defined after those that are. -/
def Fresh (names defined : List String) : Prop := names.Nodup ∧ ∀ n ∈ names, n ∉ defined

theorem fresh_nil (defined : List String) : Fresh [] defined := ⟨List.nodup_nil, by simp⟩

/-- Names can be defined one list after the other. -/
theorem fresh_append {as bs defined defined' : List String}
    (h : ∀ n, n ∈ defined' ↔ n ∈ as ∨ n ∈ defined) :
    Fresh (as ++ bs) defined ↔ Fresh as defined ∧ Fresh bs defined' := by
  unfold Fresh
  simp only [List.nodup_append, List.mem_append, h]
  constructor
  · rintro ⟨⟨ha, hb, hab⟩, hd⟩
    refine ⟨⟨ha, fun n hn => hd n (.inl hn)⟩, hb, fun n hn hmem => ?_⟩
    rcases hmem with hmem | hmem
    · exact hab n hmem n hn rfl
    · exact hd n (.inr hn) hmem
  · rintro ⟨⟨ha, hda⟩, hb, hdb⟩
    refine ⟨⟨ha, hb, fun n hn m hm he => hdb m hm (.inl (he ▸ hn))⟩, fun n hn hmem => ?_⟩
    rcases hn with hn | hn
    · exact hda n hn hmem
    · exact hdb n hn (.inr hmem)

/-- Where nothing is defined yet. -/
theorem fresh_empty {names : List String} : Fresh names [] ↔ names.Nodup := by simp [Fresh]

/-- From the state `s` the emission succeeds exactly if there is a result `r` and the
condition `F` holds. It then gives that result and leaves a state in `Q`. -/
def Yields {α : Type} (m : EmitM α) (s : State) (F : Prop) (r : Option α) (Q : State → Prop) :
    Prop :=
  (∀ a s', exec m s = (.ok a, s') → r = some a ∧ F) ∧
  (∀ a, r = some a → F → ∃ s', exec m s = (.ok a, s') ∧ Q s')

/-- At the spot `k` the emission gives `r`, if there is one and the macros in `names`
can be defined. It then defines them, and uses the record of the loop if `uses` says
so. -/
def Emits {α : Type} (K : Scene) (k : Spot) (names : List String) (uses : Bool) (r : Option α)
    (m : EmitM α) : Prop :=
  ∀ s, At K k s → Yields m s (Fresh names s.macros) r (Moved K (k.using uses) names s)

namespace Yields

variable {α β : Type} {m : EmitM α} {s : State} {F F' : Prop} {r : Option α} {Q Q' : State → Prop}

/-- A success is the one that is foreseen, and leaves a state that is. -/
theorem ok (h : Yields m s F r Q) {s' : State} {a : α} (he : exec m s = (.ok a, s')) :
    r = some a ∧ F ∧ Q s' := by
  obtain ⟨hr, hF⟩ := h.1 a s' he
  obtain ⟨t, ht, hQ⟩ := h.2 a hr hF
  rw [he] at ht
  cases ht
  exact ⟨hr, hF, hQ⟩

theorem mono (h : Yields m s F r Q) (hF : F ↔ F') (hQ : ∀ t, Q t → Q' t) :
    Yields m s F' r Q' := by
  refine ⟨fun a s' he => ⟨(h.1 a s' he).1, hF.1 (h.1 a s' he).2⟩, fun a ha hF' => ?_⟩
  obtain ⟨t, ht, hQt⟩ := h.2 a ha (hF.2 hF')
  exact ⟨t, ht, hQ t hQt⟩

theorem pure {a : α} (hF : F) (hQ : Q s) : Yields (Pure.pure a) s F (some a) Q := by
  refine ⟨fun b s' he => ?_, fun b hb _ => ?_⟩
  · cases he
    exact ⟨rfl, hF⟩
  · cases hb
    exact ⟨s, rfl, hQ⟩

/-- The condition for the second part may speak of the state between the parts. -/
theorem bind {f : α → EmitM β} {g : α → Option β} {P : State → Prop} (h : Yields m s F r Q)
    (hf : ∀ a t, r = some a → Q t → Yields (f a) t (P t) (g a) Q') (hF : F' → F)
    (hP : ∀ t, Q t → F → (F' ↔ P t)) : Yields (m >>= f) s F' (r >>= g) Q' := by
  refine ⟨fun b s' he => ?_, fun b hb hF' => ?_⟩
  · obtain ⟨a, t, hm, hfa⟩ := exec_bind_eq_ok.1 he
    obtain ⟨hr, hFm, hQ⟩ := h.ok hm
    obtain ⟨hg, hPt⟩ := (hf a t hr hQ).1 b s' hfa
    rw [hr]
    exact ⟨hg, (hP t hQ hFm).2 hPt⟩
  · obtain ⟨a, hr, hg⟩ := Option.bind_eq_some_iff.1 hb
    obtain ⟨t, hm, hQ⟩ := h.2 a hr (hF hF')
    obtain ⟨s', hfa, hQ'⟩ := (hf a t hr hQ).2 b hg ((hP t hQ (hF hF')).1 hF')
    exact ⟨s', exec_bind_eq_ok.2 ⟨a, t, hm, hfa⟩, hQ'⟩

/-- The second part has no condition of its own. -/
theorem bind_last {f : α → EmitM β} {g : α → Option β} (h : Yields m s F r Q)
    (hf : ∀ a t, r = some a → Q t → Yields (f a) t True (g a) Q') :
    Yields (m >>= f) s F (r >>= g) Q' :=
  h.bind hf id fun _ _ hF => iff_true_intro hF

/-- Both parts define macros. -/
theorem bind_fresh {f : α → EmitM β} {g : α → Option β} {as bs : List String}
    (h : Yields m s (Fresh as s.macros) r Q)
    (hQ : ∀ t, Q t → ∀ n, n ∈ t.macros ↔ n ∈ as ∨ n ∈ s.macros)
    (hf : ∀ a t, r = some a → Q t → Yields (f a) t (Fresh bs t.macros) (g a) Q') :
    Yields (m >>= f) s (Fresh (as ++ bs) s.macros) (r >>= g) Q' := by
  refine h.bind hf ?_ fun t ht hfresh => ?_
  · rintro ⟨hnodup, hnew⟩
    exact ⟨(List.nodup_append.1 hnodup).1, fun n hn => hnew n (List.mem_append_left _ hn)⟩
  · rw [fresh_append (hQ t ht), and_iff_right hfresh]

theorem get_bind {f : State → EmitM α} (h : Yields (f s) s F r Q) : Yields (get >>= f) s F r Q := by
  unfold Yields
  rw [exec_bind, exec_get]
  exact h

theorem modify_bind {upd : State → State} {f : PUnit → EmitM α} (h : Yields (f ⟨⟩) (upd s) F r Q) :
    Yields (modify upd >>= f) s F r Q := by
  unfold Yields
  rw [exec_bind, exec_modify]
  exact h

theorem within {enter : State → State} {leave : State → State → State}
    (h : Yields m (enter s) F r Q) (hQ : ∀ t, Q t → Q' (leave s t)) :
    Yields (Emit.within enter leave m) s F r Q' := by
  refine ⟨fun a s' he => ?_, fun a ha hF => ?_⟩
  · rw [exec_within, Prod.mk.injEq] at he
    exact h.1 a _ (Prod.ext he.1 rfl)
  · obtain ⟨t, ht, hQt⟩ := h.2 a ha hF
    refine ⟨leave s t, ?_, hQ t hQt⟩
    rw [exec_within, ht]

end Yields

section
variable {K : Scene} {k : Spot}

theorem At.moved {s : State} (h : At K k s) : Moved K k [] s s :=
  ⟨rfl, fun _ _ => rfl, h.used, fun _ _ => rfl, by simp, h.stem⟩

/-- The state after an emission is again one of the scene. -/
theorem Moved.at {s s' : State} {names : List String} {uses : Bool} (h : At K k s)
    (m : Moved K (k.using uses) names s s') : At K (k.using uses) s' := by
  have hb := m.branches k.depth (Nat.le_refl _)
  have hf := m.frame
  refine ⟨?_, ?_, hb.trans h.branch, m.used, m.stem, ?_, ?_, ?_, ?_⟩
  · rw [hf]; exact h.autoescape
  · rw [hf]; exact h.depth
  · rw [hf]; exact h.block
  · rw [hf]; exact h.parent
  · rw [hf]; exact h.inline
  · rw [hf]; exact h.rest

theorem Moved.trans {s₁ s₂ s₃ : State} {as bs : List String} {u v : Bool}
    (h : Moved K (k.using u) as s₁ s₂) (h' : Moved K (k.using (u || v)) bs s₂ s₃) :
    Moved K (k.using (u || v)) (as ++ bs) s₁ s₃ where
  frame := by rw [h'.frame, h.frame]
  recorded x hx := (h'.recorded x hx).trans (h.recorded x hx)
  used := h'.used
  branches x hx := (h'.branches x hx).trans (h.branches x hx)
  macros n := by
    rw [h'.macros, h.macros, List.mem_append]
    constructor
    · rintro (hn | hn | hn)
      · exact .inl (.inr hn)
      · exact .inl (.inl hn)
      · exact .inr hn
    · rintro ((hn | hn) | hn)
      · exact .inr (.inl hn)
      · exact .inl hn
      · exact .inr (.inr hn)
  stem := h'.stem

/-! ### Putting emissions together -/

variable {α β : Type} {names : List String} {u v : Bool} {r : Option α} {m : EmitM α}

theorem Emits.pure (a : α) : Emits K k [] false (some a) (Pure.pure a : EmitM α) :=
  fun _ hs => .pure (fresh_nil _) (by simpa using hs.moved)

/-- An emission that never succeeds. -/
theorem Emits.never (h : ∀ s a s', exec m s ≠ (.ok a, s')) : Emits K k names u none m :=
  fun s _ => ⟨fun a s' he => absurd he (h s a s'), fun _ ha => by cases ha⟩

theorem Emits.get_bind {f : State → EmitM α}
    (h : ∀ s, At K k s → Yields (f s) s (Fresh names s.macros) r (Moved K (k.using u) names s)) :
    Emits K k names u r (get >>= f) := fun s hs => .get_bind (h s hs)

theorem Emits.bind_of {f : α → EmitM β} {g : α → Option β} {names' : List String}
    (h : Emits K k names u r m)
    (hf : ∀ a, r = some a → Emits K (k.using u) names' v (g a) (f a)) :
    Emits K k (names ++ names') (u || v) (r >>= g) (m >>= f) := by
  intro s hs
  refine (h s hs).bind_fresh (fun t hm => hm.macros) fun a t hr hm => ?_
  refine (hf a hr t (hm.at hs)).mono Iff.rfl fun s' hm' => ?_
  rw [Spot.using_using] at hm'
  exact hm.trans hm'

theorem Emits.bind {f : α → EmitM β} {g : α → Option β} {names' : List String}
    (h : Emits K k names u r m) (hf : ∀ a, Emits K (k.using u) names' v (g a) (f a)) :
    Emits K k (names ++ names') (u || v) (r >>= g) (m >>= f) := h.bind_of fun a _ => hf a

theorem Emits.cast {names' : List String} {r' : Option α} (h : Emits K k names u r m)
    (hn : names = names') (hu : u = v) (hr : r = r') : Emits K k names' v r' m := by
  subst hn hu hr
  exact h

/-- Only whether the record counts as used afterwards matters. -/
theorem Emits.using_congr (h : Emits K k names u r m) (hk : k.using u = k.using v) :
    Emits K k names v r m := by
  intro s hs
  rw [← hk]
  exact h s hs

theorem Emits.map (f : α → β) (h : Emits K k names u r m) :
    Emits K k names u (r.map f) (f <$> m) := by
  intro s hs
  refine ⟨fun b s' he => ?_, fun b hb hfresh => ?_⟩
  · obtain ⟨a, hm, rfl⟩ := exec_map_eq_ok.1 he
    obtain ⟨hr, hfr⟩ := (h s hs).1 a s' hm
    exact ⟨by rw [hr]; rfl, hfr⟩
  · obtain ⟨a, hr, rfl⟩ := Option.map_eq_some_iff.1 hb
    obtain ⟨s', hm, hmoved⟩ := (h s hs).2 a hr hfresh
    exact ⟨s', exec_map_eq_ok.2 ⟨a, hm, rfl⟩, hmoved⟩

/-- A result that is made from another one. -/
theorem Emits.bind_pure (f : α → β) (h : Emits K k names u r m) :
    Emits K k names u (r >>= fun a => some (f a)) (m >>= fun a => Pure.pure (f a)) :=
  (h.bind fun a => Emits.pure (f a)).cast (List.append_nil _) (Bool.or_false _) rfl

/-- An emission run in a changed state, where the change is undone. -/
theorem Emits.within {K' : Scene} {k' : Spot} {enter : State → State}
    {leave : State → State → State} (h : Emits K' k' names u r m)
    (hin : ∀ s, At K k s → At K' k' (enter s)) (hmacros : ∀ s, (enter s).macros = s.macros)
    (hout : ∀ s s', At K k s → Moved K' (k'.using u) names (enter s) s' →
      Moved K (k.using u) names s (leave s s')) :
    Emits K k names u r (Emit.within enter leave m) := by
  intro s hs
  rw [← hmacros s]
  exact (h _ (hin s hs)).within fun t => hout s t hs

/-- What is emitted while some expression is open is emitted while none is. -/
theorem Emits.of_busy (h : Emits K.busy k names u r m) : Emits K k names u r m := by
  intro s hs
  have hbusy : At K.busy k s :=
    ⟨hs.autoescape, hs.depth, hs.branch, hs.used, hs.stem, hs.block, hs.parent, hs.inline, nofun⟩
  refine (h s hbusy).mono Iff.rfl fun t hm => ?_
  exact ⟨hm.frame, hm.recorded, hm.used, hm.branches, hm.macros, hm.stem⟩

end

/-! ### Expressions -/

section
variable {K : Scene} {k : Spot} {u : Bool} {names : List String}

theorem Emits.inExpr {α : Type} {r : Option α} {m : EmitM α} (hb : K.resting = false)
    (h : Emits K k names u r m) : Emits K k names u r (Emit.inExpr m) := by
  refine h.within (fun s hs => ?_) (fun _ => rfl) fun s s' hs hm => ?_
  · refine ⟨hs.autoescape, hs.depth, hs.branch, hs.used, hs.stem, hs.block, hs.parent,
      hs.inline, ?_⟩
    simp [hb]
  · have hf := hm.frame
    refine ⟨?_, hm.recorded, hm.used, hm.branches, hm.macros, hm.stem⟩
    rw [hf]
    rfl

theorem Emits.fail {α : Type} (cause : Location → CompileError) :
    Emits K k names u (none : Option α) (Emit.fail K.env cause) :=
  .never fun s a s' he => by rw [exec_fail] at he; cases he

theorem ofExcept_emits (r : Except CompileError String) :
    Emits K k [] false r.toOption (Emit.ofExcept r) := by
  cases r with
  | ok a => exact .pure a
  | error e => exact .never fun s a s' he => by cases he

/-- What loop variables start with is that of the site. -/
theorem loopStem_emits : Emits K k [] false K.site.stem? (loopStem K.env) := by
  have hsite : K.site.stem? = if Compiler.isIdentifier (K.env.compiler.stemFor K.env.source)
      then some (K.env.compiler.stemFor K.env.source) else none := rfl
  refine Emits.get_bind fun s hs => ?_
  cases hstem : s.stem with
  | some stem =>
    rw [hs.stem stem hstem]
    exact Emits.pure stem s hs
  | none =>
    dsimp only
    by_cases hid : Compiler.isIdentifier (K.env.compiler.stemFor K.env.source)
    · rw [if_pos hid] at hsite ⊢
      rw [hsite]
      refine ⟨fun a s' he => ?_, fun a ha _ => ?_⟩
      · cases he
        exact ⟨rfl, fresh_nil _⟩
      · cases ha
        refine ⟨_, rfl, rfl, fun _ _ => rfl, by simpa using hs.used, fun _ _ => rfl, by simp, ?_⟩
        intro x hx
        cases hx
        exact hsite
    · rw [if_neg hid] at hsite ⊢
      rw [hsite]
      exact Emits.never (fun t a t' he => by cases he) s hs

/-- Recording that the record of the innermost loop is used. -/
theorem record_emits (h : 0 < k.depth) :
    Emits K k [] true (some ⟨⟩)
      (modify fun s => { s with recorded := k.depth :: s.recorded } : EmitM PUnit) := by
  intro s hs
  refine ⟨fun a s' _ => ⟨rfl, fresh_nil _⟩, fun a _ _ => ⟨_, rfl, rfl, fun x hx => ?_, ?_,
    fun _ _ => rfl, by simp, hs.stem⟩⟩
  · have : x ≠ k.depth := Nat.ne_of_lt hx
    simp [this]
  · simp [Spot.using, h]

/-- The code of a variable. -/
theorem identifier_emits (name : String) :
    Emits K k [] (name == "loop") (Plain.identifier? K.site k.depth name)
      (identifier K.env name) := by
  refine Emits.get_bind fun s hs => ?_
  unfold Plain.identifier?
  dsimp only
  rw [hs.depth]
  by_cases hname : name = "loop" ∧ 0 < k.depth
  · rw [if_pos hname, if_pos hname]
    refine (((record_emits hname.2).bind fun _ => loopStem_emits.bind_pure fun stem =>
      "$" ++ stem ++ toString k.depth ++ "loop").cast rfl (by simp [hname.1]) ?_) s hs
    cases K.site.stem? <;> rfl
  · rw [if_neg hname, if_neg hname]
    have huses : k.using (name == "loop") = k.using false := by
      unfold Spot.using
      by_cases h : name = "loop"
      · have : ¬ 0 < k.depth := fun hd => hname ⟨h, hd⟩
        simp [this]
      · simp [h]
    have plain : ∀ code : String, Emits K k [] (name == "loop") (some code) (Pure.pure code) :=
      fun code => (Emits.pure code).using_congr huses.symm
    have hservices : K.site.services = K.env.compiler.services := rfl
    rw [hservices]
    by_cases hservice : K.env.compiler.services.contains name
    · rw [if_pos hservice, if_pos hservice]
      exact plain _ s hs
    · rw [if_neg hservice, if_neg hservice]
      exact plain _ s hs

end

section
variable {K : Scene} {k : Spot} {u : Bool} {names : List String}

theorem hooked_emits (H : K.Busy) (e : Expr) {r : Option String} {m : EmitM String}
    (h : Emits K k names u r m) : Emits K k names u r (hooked K.env e m) := by
  unfold hooked asked
  rw [H.handled]
  exact h.inExpr H.resting

/-- An expression of several parts uses the record of the loop if one of them does. -/
theorem parts_emits (H : K.Busy) {e : Expr} {parts : List Expr} (hparts : e.emitted = e :: parts)
    (hself : e.isLoop = false) (hany : parts.any Expr.isLoop = u) {r : Option String}
    {m : EmitM String} (h : Emits K k names u r m) :
    Emits K k names e.usesLoop r (hooked K.env e m) := by
  have huses : e.usesLoop = u := by
    rw [Expr.usesLoop, hparts, List.any_cons, hself, Bool.false_or, hany]
  rw [huses]
  exact hooked_emits H e h

theorem superBlock_emits (hq : K.Quiet) : Emits K k [] false (some "''") K.env.superBlock := by
  intro s hs
  have he := hq s hs.block hs.parent
  refine ⟨fun a s' h => ?_, fun a ha _ => ⟨s, ?_, by simpa using hs.moved⟩⟩
  · rw [he] at h
    cases h
    exact ⟨rfl, fresh_nil _⟩
  · cases ha
    exact he

theorem callNamed_emits (H : K.Simple) (name arguments : String) (raw : List Arg)
    (hname : K.plug = none ∨ name ≠ "super") :
    Emits K k [] false (Plain.callNamed? K.site name arguments raw)
      (callNamed K.env name arguments raw) := by
  have hfunctions : K.site.functions = K.env.compiler.functions := rfl
  unfold callNamed Plain.callNamed?
  rw [H.handled, hfunctions]
  dsimp only
  cases K.env.compiler.functions.lookup name with
  | some f => exact ofExcept_emits _
  | none =>
    by_cases h : name = "super"
    · simp only [h, ↓reduceIte]
      rcases hname with hplug | hne
      · exact superBlock_emits (H.quiet hplug)
      · exact absurd h hne
    · simp only [h, ↓reduceIte]
      exact .pure _

/-- A filter by name. The argument that the filter which joins emits again has
used the record before. -/
theorem filterNamed_emits (H : K.Simple) (name l arguments : String) (raw : List Arg)
    {g : Option String} {glue : EmitM String} (h : Emits K k [] u g glue)
    (hu : k.using u = k.using false) :
    Emits K k [] false (Plain.filterNamed? K.site name l arguments raw g)
      (filterNamed K.env name l arguments raw glue) := by
  have hfilters : K.site.filters = K.env.compiler.filters := rfl
  unfold filterNamed Plain.filterNamed?
  rw [H.handled, hfilters]
  dsimp only
  cases K.env.compiler.filters.lookup name with
  | some f => exact ofExcept_emits _
  | none =>
    dsimp only
    by_cases hjoin : name = "join"
    · rw [if_pos hjoin, if_pos hjoin]
      refine ((h.using_congr hu).bind_pure _).cast rfl rfl ?_
      cases g <;> rfl
    · rw [if_neg hjoin, if_neg hjoin]
      cases Code.filter? name l arguments with
      | some code => exact .pure _
      | none => exact .fail _

theorem objectCode_emits (object : Expr) {m : EmitM String}
    (h : Emits K k [] object.usesLoop (Plain.expr? K.site k.depth object) m) :
    Emits K k [] object.usesLoop (Plain.expr? K.site k.depth object)
      (objectCode K.env object m) := by
  cases object with
  | var name =>
    rw [Expr.usesLoop_var]
    exact identifier_emits name
  | _ => exact h

theorem attrCode_emits (attr : Expr) {r : Option String} {m : EmitM String}
    (h : Emits K k [] attr.usesLoop r m) :
    Emits K k [] ((attr.unlessName attr.emitted).any Expr.isLoop) (Plain.attrCode? attr r)
      (attrCode attr m) := by
  cases attr with
  | var name => exact .pure name
  | _ => exact h

theorem callCode_emits (H : K.Simple) (callee : Expr) (arguments : String) (raw : List Arg)
    (hcall : K.admits (.call callee raw)) {r : Option String} {m : EmitM String}
    (h : Emits K k [] callee.usesLoop r m) :
    Emits K k [] ((callee.unlessName callee.emitted).any Expr.isLoop)
      (Plain.callCode? K.site callee arguments raw r) (callCode K.env callee arguments raw m) := by
  have other : Emits K k [] callee.usesLoop (r.map (Code.apply · arguments))
      (m >>= fun code => Pure.pure (Code.apply code arguments)) := by
    refine (h.bind_pure _).cast rfl rfl ?_
    cases r <;> rfl
  cases callee with
  | var name =>
    refine callNamed_emits H name arguments raw ?_
    simpa [Scene.admits, Expr.isSuper] using hcall
  | _ => exact other

theorem filterCode_emits (H : K.Busy) (filter : Expr) (l : String)
    (hargs : Emits K k [] filter.usesLoopOperands (Plain.operands? K.site k.depth filter)
      (operands K.env filter))
    (hglue : Emits K (k.using filter.usesLoopOperands) [] filter.usesLoopFirst
      (Plain.glue? K.site k.depth filter) (glue K.env filter)) :
    Emits K k [] ((filter.ofFilter filter.emittedOperands).any Expr.isLoop)
      (Plain.filterCode? K.site filter l (Plain.operands? K.site k.depth filter)
        (Plain.glue? K.site k.depth filter))
      (filterCode K.env filter l (operands K.env filter) (glue K.env filter)) := by
  cases filter with
  | var name =>
    have hvar : Emits K k [] false (some "''") (glue K.env (.var name)) := by
      simpa [Expr.usesLoopOperands, Expr.emittedOperands, Expr.usesLoopFirst,
        Plain.glue?] using hglue
    exact filterNamed_emits H.toSimple name l l _ hvar rfl
  | call callee raw =>
    cases callee with
    | var name =>
      have again :
          (k.using (Expr.usesLoopArgs raw)).using (Expr.usesLoopFirst (.call (.var name) raw)) =
          (k.using (Expr.usesLoopArgs raw)).using false := by
        have := @Expr.usesLoopOperands_of_first (.call (.var name) raw)
        change _ → Expr.usesLoopArgs raw = true at this
        rw [Spot.using_using, Spot.using_using, Bool.or_false]
        congr 1
        cases hf : Expr.usesLoopFirst (.call (.var name) raw)
        · simp
        · simp [this hf]
      have named := fun given => filterNamed_emits H.toSimple name l given
        (filterArgs name l raw) hglue again
      have first : Emits K k [] false (some l) (hooked K.env (.resolved l) (Pure.pure l)) :=
        hooked_emits H _ (.pure _)
      unfold filterCode Plain.filterCode?
      dsimp only
      by_cases hdefault : name = "default"
      · subst hdefault
        rw [if_pos rfl]
        cases raw with
        | nil => exact ((Emits.pure l).bind named).cast rfl rfl rfl
        | cons a rest =>
          refine ((hargs.map Code.commas).bind named).cast rfl (Bool.or_false _) ?_
          rw [Plain.operands?]
          cases Plain.args? K.site k.depth (a :: rest) <;> rfl
      · rw [if_neg hdefault]
        simp only [if_neg hdefault]
        have given : ∀ f, Emits K (k.using false) [] (Expr.usesLoopArgs raw)
            (Plain.args? K.site k.depth raw >>= fun rest =>
              Plain.filterNamed? K.site name l (Code.commas (f :: rest)) (filterArgs name l raw)
                (Plain.glue? K.site k.depth (.call (.var name) raw)))
            (operands K.env (.call (.var name) raw) >>= fun rest =>
              filterNamed K.env name l (Code.commas (f :: rest)) (filterArgs name l raw)
                (glue K.env (.call (.var name) raw))) := by
          intro f
          rw [Spot.using_false]
          refine (hargs.bind fun rest => named (Code.commas (f :: rest))).cast rfl ?_ ?_
          · exact Bool.or_false _
          · rw [Plain.operands?]
        exact (first.bind given).cast rfl (Bool.false_or _) rfl
    | _ => exact .fail _
  | _ => exact .fail _

theorem testCode_emits (test : Expr) (l : String) {ops : Option (List String)}
    {whole : Option String} {operands : EmitM (List String)} {m : EmitM String}
    (hops : Emits K k [] test.usesLoopOperands ops operands)
    (hwhole : Emits K k [] test.usesLoop whole m) :
    Emits K k [] ((test.ofTest test.emittedOperands test.emitted).any Expr.isLoop)
      (Plain.testCode? test l ops whole) (testCode test l operands m) := by
  have equal : Emits K k [] test.usesLoop (whole.map fun code => Code.between l "==" code)
      (m >>= fun code => Pure.pure (Code.between l "==" code)) := by
    refine (hwhole.bind_pure _).cast rfl rfl ?_
    cases whole <;> rfl
  unfold testCode Plain.testCode?
  cases test with
  | var name =>
    have hname := Code.test?_isSome name l
    dsimp only [Expr.ofTest]
    cases htest : Code.test? name l with
    | none =>
      rw [htest] at hname
      rw [if_neg (of_decide_eq_false hname.symm)]
      exact equal
    | some code =>
      rw [htest] at hname
      rw [if_pos (of_decide_eq_true hname.symm)]
      exact .pure code
  | call callee raw =>
    cases callee with
    | var name =>
      dsimp only [Expr.ofTest]
      by_cases hname : name ∈ Code.operandTests
      · rw [if_pos hname, if_pos hname, if_pos hname]
        refine (hops.bind_pure _).cast rfl rfl ?_
        cases ops <;> rfl
      · rw [if_neg hname, if_neg hname, if_neg hname]
        exact equal
    | _ => exact equal
  | _ => exact equal

end

section
variable {K : Scene}

mutual

/-- The code of an expression inside another one. -/
theorem busy_expr_emits (H : K.Busy) : ∀ (e : Expr) (k : Spot), e.all K.admits = true →
    Emits K k [] e.usesLoop (Plain.expr? K.site k.depth e) (expr K.env e)
  | .integer _, k, _ | .double _, k, _ | .str _, k, _ | .bool _, k, _ | .null, k, _
  | .resolved _, k, _ => by
    rw [expr, lowered, Plain.expr?]
    exact hooked_emits H _ (.pure _)
  | .var name, k, _ => by
    rw [expr, lowered, Plain.expr?, Expr.usesLoop_var]
    exact hooked_emits H _ (identifier_emits name)
  | .property object attr, k, h => by
    simp only [Expr.all, Bool.and_eq_true] at h
    have ho := objectCode_emits object (busy_expr_emits H object k h.1.2)
    have ha := attrCode_emits attr (busy_expr_emits H attr (k.using object.usesLoop) h.2)
    rw [expr, lowered, Plain.expr?]
    exact parts_emits H rfl rfl List.any_append (ho.bind fun o => ha.bind_pure fun a => o ++ "->" ++ a)
  | .index object index, k, h => by
    simp only [Expr.all, Bool.and_eq_true] at h
    rw [expr, lowered, Plain.expr?]
    exact parts_emits H rfl rfl List.any_append ((busy_expr_emits H object k h.1.2).bind fun o =>
      (busy_expr_emits H index _ h.2).bind_pure fun i => o ++ "[" ++ i ++ "]")
  | .binary op left right, k, h => by
    simp only [Expr.all, Bool.and_eq_true] at h
    rw [expr, lowered, Plain.expr?]
    exact parts_emits H rfl rfl List.any_append ((busy_expr_emits H left k h.1.2).bind fun l =>
      (busy_expr_emits H right _ h.2).bind_pure fun r => op.code l r)
  | .unary op operand, k, h => by
    simp only [Expr.all, Bool.and_eq_true] at h
    rw [expr, lowered, Plain.expr?]
    exact parts_emits H rfl rfl rfl ((busy_expr_emits H operand k h.2).bind_pure op.code)
  | .call callee arguments, k, h => by
    simp only [Expr.all, Bool.and_eq_true] at h
    have hc := busy_expr_emits H callee (k.using (Expr.usesLoopArgs arguments)) h.1.2
    rw [expr, lowered, Plain.expr?]
    exact parts_emits H rfl rfl List.any_append ((args_emits H arguments k h.2).bind fun given =>
      callCode_emits H.toSimple callee (Code.commas given) arguments h.1.1 hc)
  | .filter left filter, k, h => by
    simp only [Expr.all, Bool.and_eq_true] at h
    have ho := operands_emits H filter (k.using left.usesLoop) h.2
    have hg := glue_emits H filter ((k.using left.usesLoop).using filter.usesLoopOperands) h.2
    rw [expr, lowered, Plain.expr?]
    exact parts_emits H rfl rfl List.any_append ((busy_expr_emits H left k h.1.2).bind fun l =>
      filterCode_emits H filter l ho hg)
  | .is left test, k, h => by
    simp only [Expr.all, Bool.and_eq_true] at h
    rw [expr, lowered, Plain.expr?]
    exact parts_emits H rfl rfl List.any_append ((busy_expr_emits H left k h.1.2).bind fun l =>
      testCode_emits test l (operands_emits H test _ h.2) (busy_expr_emits H test _ h.2))
  | .isNot left test, k, h => by
    simp only [Expr.all, Bool.and_eq_true] at h
    rw [expr, lowered, Plain.expr?]
    exact parts_emits H rfl rfl List.any_append ((busy_expr_emits H left k h.1.2).bind fun l =>
      (testCode_emits test l (operands_emits H test _ h.2) (busy_expr_emits H test _ h.2)).bind_pure
        fun code => "!(" ++ code ++ ")")
  | .ternary condition yes no, k, h => by
    simp only [Expr.all, Bool.and_eq_true] at h
    rw [expr, lowered, Plain.expr?]
    have hany : (condition.emitted ++ (yes.emitted ++ no.emitted)).any Expr.isLoop =
        (condition.usesLoop || (yes.usesLoop || no.usesLoop)) := by
      rw [List.any_append, List.any_append]
      rfl
    exact parts_emits H rfl rfl hany ((busy_expr_emits H condition k h.1.1.2).bind fun c =>
      (busy_expr_emits H yes _ h.1.2).bind fun y => (busy_expr_emits H no _ h.2).bind_pure fun n =>
        "(" ++ c ++ " ? " ++ y ++ " : " ++ n ++ ")")
  | .slice object start stop, k, h => by
    simp only [Expr.all, Bool.and_eq_true] at h
    rw [expr, lowered, Plain.expr?]
    have hany : (object.emitted ++ (Expr.emittedOption start ++ Expr.emittedOption stop)).any
        Expr.isLoop =
        (object.usesLoop || (Expr.usesLoopOption start || Expr.usesLoopOption stop)) := by
      rw [List.any_append, List.any_append, Expr.any_emittedOption, Expr.any_emittedOption]
      rfl
    exact parts_emits H rfl rfl hany ((busy_expr_emits H object k h.1.1.2).bind fun o =>
      (exprOrNull_emits H start _ h.1.2).bind fun s => (exprOrNull_emits H stop _ h.2).bind_pure
        fun e => Code.apply "$this->slice" (Code.commas [o, s, e]))
  | .array items, k, h => by
    simp only [Expr.all, Bool.and_eq_true] at h
    rw [expr, lowered, Plain.expr?]
    exact parts_emits H rfl rfl rfl ((args_emits H items k h.2).bind_pure fun codes =>
      "[" ++ Code.commas codes ++ "]")
  | .enclosed inner, k, h => by
    simp only [Expr.all, Bool.and_eq_true] at h
    rw [expr, lowered, Plain.expr?]
    exact parts_emits H rfl rfl rfl ((busy_expr_emits H inner k h.2).bind_pure fun code =>
      "(" ++ code ++ ")")
  | .unknown, k, _ => by rw [expr, lowered, Plain.expr?]; exact hooked_emits H _ (.fail _)

theorem args_emits (H : K.Busy) : ∀ (as : List Arg) (k : Spot), Expr.allArgs K.admits as = true →
    Emits K k [] (Expr.usesLoopArgs as) (Plain.args? K.site k.depth as) (args K.env as)
  | [], k, _ => by rw [args, Plain.args?]; exact .pure _
  | ⟨e, name⟩ :: rest, k, h => by
    simp only [Expr.allArgs, Bool.and_eq_true] at h
    rw [args, Plain.args?, Expr.usesLoopArgs, Expr.emittedArgs, List.any_append]
    exact (busy_expr_emits H e k h.1).bind fun code =>
      (args_emits H rest _ h.2).bind_pure fun codes => keyword name code :: codes

theorem operands_emits (H : K.Busy) : ∀ (e : Expr) (k : Spot), e.all K.admits = true →
    Emits K k [] e.usesLoopOperands (Plain.operands? K.site k.depth e) (operands K.env e)
  | .call callee arguments, k, h => by
    simp only [Expr.all, Bool.and_eq_true] at h
    rw [operands, Plain.operands?]
    exact args_emits H arguments k h.2
  | .integer _, k, _ | .double _, k, _ | .str _, k, _ | .bool _, k, _ | .null, k, _ | .var _, k, _
  | .property .., k, _ | .index .., k, _ | .binary .., k, _ | .unary .., k, _ | .filter .., k, _
  | .is .., k, _ | .isNot .., k, _ | .ternary .., k, _ | .slice .., k, _ | .array _, k, _
  | .enclosed _, k, _ | .resolved _, k, _ | .unknown, k, _ => by
    simp only [operands, Plain.operands?]
    exact .pure _

theorem glue_emits (H : K.Busy) : ∀ (e : Expr) (k : Spot), e.all K.admits = true →
    Emits K k [] e.usesLoopFirst (Plain.glue? K.site k.depth e) (glue K.env e)
  | .call callee (⟨e, name⟩ :: rest), k, h => by
    simp only [Expr.all, Expr.allArgs, Bool.and_eq_true] at h
    rw [glue, Plain.glue?]
    exact busy_expr_emits H e k h.2.1
  | .call _ [], k, _ | .integer _, k, _ | .double _, k, _ | .str _, k, _ | .bool _, k, _
  | .null, k, _ | .var _, k, _ | .property .., k, _ | .index .., k, _ | .binary .., k, _
  | .unary .., k, _ | .filter .., k, _ | .is .., k, _ | .isNot .., k, _ | .ternary .., k, _
  | .slice .., k, _ | .array _, k, _ | .enclosed _, k, _ | .resolved _, k, _ | .unknown, k, _ => by
    simp only [glue, Plain.glue?]
    exact .pure _

theorem exprOrNull_emits (H : K.Busy) : ∀ (e : Option Expr) (k : Spot),
    Expr.allOption K.admits e = true →
    Emits K k [] (Expr.usesLoopOption e) (Plain.exprOrNull? K.site k.depth e) (exprOrNull K.env e)
  | none, k, _ => by rw [exprOrNull, Plain.exprOrNull?]; exact .pure _
  | some e, k, h => by
    rw [exprOrNull, Plain.exprOrNull?]
    exact busy_expr_emits H e k h

end

/-- The code of an expression is its plain code. -/
theorem expr_emits (H : K.Simple) (e : Expr) (k : Spot) (h : e.all K.admits = true) :
    Emits K k [] e.usesLoop (Plain.expr? K.site k.depth e) (expr K.env e) :=
  Emits.of_busy (busy_expr_emits H.busy e k h)

end

end Emit
end Stencil
