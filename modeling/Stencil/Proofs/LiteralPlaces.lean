/-
# Places of literals

Which literals there are in the code of an expression does not depend on how they are written. An
extension that writes them in another form shows where they are: whatever the form, the code is one
weave of texts and places of literals, with the literals in that form.

An emission may keep its code as blocks in the state, and how literals are written must not change
what else it does. So two emissions are compared from states that are equal but for the blocks.

Key definitions: `Extension.writer`, `Callable.Weaving`, `Emit.Ends`, `Emit.Weaves`.
Key theorems: `Emit.Weaves.bind`, `Emit.expr_weaves`.
-/
import Stencil.Proofs.Congruence
import Stencil.Proofs.Emitted
import Stencil.Proofs.Weave

namespace Stencil

/-! ### Writing literals in another form -/

/-- A literal in a form. -/
def Expr.written? (form : String → String) : Expr → Option String
  | .str value => some (form value)
  | _ => none

/-- An extension that writes literals in a form. -/
def Extension.writer (form : String → String) : Extension :=
  { Extension.silent with expression := Expr.written? form }

/-- The callable puts the code of its arguments in places that do not depend on how literals are
written. The first of the arguments it comes from may be code already. -/
def Callable.Weaving (c : Callable) : Prop :=
  ∀ (arguments : Weave) (first : Option Weave) (raw : List Arg), ∃ r : Except CompileError Weave,
    ∀ form, SolidForm form →
      c.expand (arguments.fill form)
        ((first.map fun w => ⟨.resolved (w.fill form), none⟩).toList ++ raw) =
        r.map (Weave.fill form)

/-- A function that is called by its name. -/
theorem Callable.weaving_name (name : String) : (Callable.name name).Weaving := by
  intro arguments first raw
  obtain ⟨w, hw⟩ := ((Woven.fill arguments).around (name ++ "(") ")")
  refine ⟨.ok w, fun form hform => ?_⟩
  rw [Callable.expand, Except.map, hw form hform]

/-- No extension is asked, and callables keep the places of literals in their arguments. -/
structure Compiler.Weaving (c : Compiler) : Prop where
  extensions : c.extensions = []
  functions : ∀ name f, c.functions.lookup name = some f → f.Weaving
  filters : ∀ name f, c.filters.lookup name = some f → f.Weaving

namespace Emit

/-- The environment with literals written in a form. -/
def Env.writing (env : Env) (form : String → String) : Env :=
  { env with compiler := { env.compiler with extensions := [.writer form] } }

/-! ### Emissions that do not look at blocks -/

/-- From `s`, whatever blocks are registered, the emission gives `r` and leaves `t` but for the
blocks. -/
def Ends {α : Type} (m : EmitM α) (s : State) (r : Except CompileError α) (t : State) : Prop :=
  ∀ blocks, ∃ blocks', exec m { s with blocks := blocks } = (r, { t with blocks := blocks' })

namespace Ends

variable {α β : Type} {m : EmitM α} {s t u : State}

theorem pure (a : α) (s : State) : Ends (Pure.pure a) s (.ok a) s := fun blocks => ⟨blocks, rfl⟩

theorem throw (e : CompileError) (s : State) :
    Ends (MonadExcept.throw e : EmitM α) s (.error e) s :=
  fun blocks => ⟨blocks, rfl⟩

theorem fail (env : Env) (cause : Location → CompileError) (s : State) :
    Ends (Emit.fail env cause : EmitM α) s (.error (cause (.of s.pos env.source))) s :=
  fun blocks => ⟨blocks, rfl⟩

theorem bind {f : α → EmitM β} {a : α} {r : Except CompileError β} (h : Ends m s (.ok a) t)
    (hf : Ends (f a) t r u) :
    Ends (m >>= f) s r u := by
  intro blocks
  obtain ⟨blocks', hm⟩ := h blocks
  obtain ⟨blocks'', hfa⟩ := hf blocks'
  refine ⟨blocks'', ?_⟩
  rw [exec_bind, hm]
  exact hfa

theorem bind_error {f : α → EmitM β} {e : CompileError} (h : Ends m s (.error e) t) :
    Ends (m >>= f) s (.error e) t := by
  intro blocks
  obtain ⟨blocks', hm⟩ := h blocks
  exact ⟨blocks', by rw [exec_bind, hm]⟩

theorem modify {upd : State → State}
    (h : ∀ s blocks, ∃ blocks', upd { s with blocks := blocks } =
      { upd s with blocks := blocks' }) (s : State) :
    Ends (modify upd) s (.ok ⟨⟩) (upd s) := by
  intro blocks
  obtain ⟨blocks', hupd⟩ := h s blocks
  exact ⟨blocks', by rw [exec_modify, hupd]⟩

theorem get_bind {f : State → EmitM α} {r : Except CompileError α}
    (hf : ∀ s blocks, f { s with blocks := blocks } = f s)
    (h : Ends (f s) s r t) : Ends (get >>= f) s r t := by
  intro blocks
  obtain ⟨blocks', hfs⟩ := h blocks
  refine ⟨blocks', ?_⟩
  rw [exec_bind, exec_get]
  dsimp only
  rw [hf]
  exact hfs

theorem within {enter : State → State} {leave : State → State → State} {r : Except CompileError α}
    (henter : ∀ s blocks, enter { s with blocks := blocks } = { enter s with blocks := blocks })
    (hleave : ∀ s t blocks blocks', leave { s with blocks := blocks } { t with blocks := blocks' } =
      { leave s t with blocks := blocks' })
    (h : Ends m (enter s) r t) : Ends (Emit.within enter leave m) s r (leave s t) := by
  intro blocks
  obtain ⟨blocks', hm⟩ := h blocks
  refine ⟨blocks', ?_⟩
  rw [exec_within, henter, hm, hleave]

end Ends

/-! ### Emissions with places for literals -/

section
variable {F G α β : Type}

/-- What is emitted is the same for all forms of literals, but for their places; `fill` puts them
in. -/
def Weaves (fill : (String → String) → F → α) (plain : EmitM α)
    (written : (String → String) → EmitM α) : Prop :=
  ∀ s, ∃ (r : Except CompileError F) (t : State), Ends plain s (r.map (fill Text.quote)) t ∧
    ∀ form, SolidForm form → Ends (written form) s (r.map (fill form)) t

/-- The emission does not look at blocks. -/
def Blind (m : EmitM α) : Prop := ∀ s, ∃ r t, Ends m s r t

namespace Weaves

variable {fill : (String → String) → F → α} {fill' : (String → String) → G → β}
  {m₀ : EmitM α} {m : (String → String) → EmitM α}

theorem pure {g : (String → String) → α}
    (h : ∃ p : F, ∀ form, SolidForm form → fill form p = g form) :
    Weaves fill (Pure.pure (g Text.quote)) fun form => Pure.pure (g form) := by
  obtain ⟨p, hp⟩ := h
  refine fun s => ⟨.ok p, s, ?_, fun form hform => ?_⟩
  · rw [Except.map, hp _ solidForm_quote]
    exact .pure _ s
  · rw [Except.map, hp form hform]
    exact .pure _ s

/-- Code that is woven. -/
theorem woven {g : (String → String) → String} (h : Woven g) :
    Weaves Weave.fill (Pure.pure (g Text.quote)) fun form => Pure.pure (g form) := .pure h

theorem fail (env : Env) (cause : Location → CompileError) :
    Weaves fill (Emit.fail env cause) fun form => Emit.fail (env.writing form) cause :=
  fun s => ⟨.error (cause (.of s.pos env.source)), s, .fail env cause s,
    fun form _ => .fail (env.writing form) cause s⟩

theorem bind {k₀ : α → EmitM β} {k : (String → String) → α → EmitM β} (h : Weaves fill m₀ m)
    (hk : ∀ p, Weaves fill' (k₀ (fill Text.quote p)) fun form => k form (fill form p)) :
    Weaves fill' (m₀ >>= k₀) fun form => m form >>= k form := by
  intro s
  obtain ⟨r, t, h₀, hm⟩ := h s
  cases r with
  | error e => exact ⟨.error e, t, h₀.bind_error, fun form hform => (hm form hform).bind_error⟩
  | ok p =>
    obtain ⟨r, u, hk₀, hk⟩ := hk p t
    exact ⟨r, u, h₀.bind hk₀, fun form hform => (hm form hform).bind (hk form hform)⟩

/-- The state may be read, but for the blocks. -/
theorem look {k₀ : State → EmitM α} {k : (String → String) → State → EmitM α}
    (hblind₀ : ∀ s blocks, k₀ { s with blocks := blocks } = k₀ s)
    (hblind : ∀ form s blocks, k form { s with blocks := blocks } = k form s)
    (h : ∀ s, Weaves fill (k₀ s) fun form => k form s) :
    Weaves fill (get >>= k₀) fun form => get >>= k form := by
  intro s
  obtain ⟨r, t, hk₀, hk⟩ := h s s
  exact ⟨r, t, .get_bind hblind₀ hk₀, fun form hform => .get_bind (hblind form) (hk form hform)⟩

theorem within {enter : State → State} {leave : State → State → State}
    (henter : ∀ s blocks, enter { s with blocks := blocks } = { enter s with blocks := blocks })
    (hleave : ∀ s t blocks blocks', leave { s with blocks := blocks } { t with blocks := blocks' } =
      { leave s t with blocks := blocks' })
    (h : Weaves fill m₀ m) :
    Weaves fill (Emit.within enter leave m₀) fun form => Emit.within enter leave (m form) := by
  intro s
  obtain ⟨r, t, h₀, hm⟩ := h (enter s)
  exact ⟨r, leave s t, h₀.within henter hleave,
    fun form hform => (hm form hform).within henter hleave⟩

/-- An emission that has nothing to do with literals. -/
theorem same {m : EmitM α} (h : Blind m) : Weaves (fun _ a => a) m fun _ => m := by
  intro s
  obtain ⟨r, t, hm⟩ := h s
  have hr : r.map (fun a => a) = r := by cases r <;> rfl
  exact ⟨r, t, by rw [hr]; exact hm, fun _ _ => by rw [hr]; exact hm⟩

/-- A text without literals. -/
theorem text {m : EmitM String} (h : Blind m) : Weaves Weave.fill m fun _ => m := by
  have hbind : Weaves Weave.fill (m >>= Pure.pure) fun _ => m >>= Pure.pure :=
    (same h).bind fun code => woven (.text code)
  simpa only [bind_pure] using hbind

/-- Code that is made from other code. -/
theorem weaving {c₀ : EmitM String} {c : (String → String) → EmitM String}
    (h : Weaves Weave.fill c₀ c)
    {f : String → String} (hf : Weaving f) :
    Weaves Weave.fill (f <$> c₀) fun form => f <$> c form := by
  simp only [map_eq_pure_bind]
  exact h.bind fun w => woven (hf _ (.fill w))

theorem map (f : F → G) {g : α → β} (h : Weaves fill m₀ m)
    (hf : ∀ form p, fill' form (f p) = g (fill form p)) :
    Weaves fill' (g <$> m₀) fun form => g <$> m form := by
  simp only [map_eq_pure_bind]
  exact h.bind fun p => .pure ⟨f p, fun form _ => hf form p⟩

theorem inExpr (h : Weaves fill m₀ m) :
    Weaves fill (Emit.inExpr m₀) fun form => Emit.inExpr (m form) :=
  h.within (fun _ _ => rfl) fun _ _ _ _ => rfl

theorem inLoop (h : Weaves fill m₀ m) :
    Weaves fill (Emit.inLoop m₀) fun form => Emit.inLoop (m form) :=
  h.within (fun _ _ => rfl) fun _ _ _ _ => rfl

theorem inList (counted : Bool) (h : Weaves fill m₀ m) :
    Weaves fill (Emit.inList counted m₀) fun form => Emit.inList counted (m form) :=
  h.within (fun _ _ => rfl) fun _ _ _ _ => rfl

theorem inStmt (pos : Position) (h : Weaves fill m₀ m) :
    Weaves fill (Emit.inStmt pos m₀) fun form => Emit.inStmt pos (m form) :=
  h.within (fun _ _ => rfl) fun _ _ _ _ => rfl

theorem inAutoescape (enabled : Bool) (h : Weaves fill m₀ m) :
    Weaves fill (Emit.inAutoescape enabled m₀) fun form => Emit.inAutoescape enabled (m form) :=
  h.within (fun _ _ => rfl) fun _ _ _ _ => rfl

end Weaves

end

namespace Blind

variable {α β : Type}

theorem pure (a : α) : Blind (Pure.pure a : EmitM α) := fun s => ⟨_, s, .pure a s⟩

theorem throw (e : CompileError) : Blind (MonadExcept.throw e : EmitM α) :=
  fun s => ⟨_, s, .throw e s⟩

theorem bind {m : EmitM α} {f : α → EmitM β} (h : Blind m) (hf : ∀ a, Blind (f a)) :
    Blind (m >>= f) := by
  intro s
  obtain ⟨r, t, hm⟩ := h s
  cases r with
  | error e => exact ⟨_, t, hm.bind_error⟩
  | ok a =>
    obtain ⟨r, u, hfa⟩ := hf a t
    exact ⟨r, u, hm.bind hfa⟩

theorem get_bind {f : State → EmitM α} (hf : ∀ s blocks, f { s with blocks := blocks } = f s)
    (h : ∀ s, Blind (f s)) :
    Blind (get >>= f) := by
  intro s
  obtain ⟨r, t, hfs⟩ := h s s
  exact ⟨r, t, .get_bind hf hfs⟩

theorem modify {upd : State → State}
    (h : ∀ s blocks, ∃ blocks', upd { s with blocks := blocks } =
      { upd s with blocks := blocks' }) :
    Blind (modify upd) := fun s => ⟨_, _, .modify h s⟩

theorem within {enter : State → State} {leave : State → State → State} {m : EmitM α}
    (henter : ∀ s blocks, enter { s with blocks := blocks } = { enter s with blocks := blocks })
    (hleave : ∀ s t blocks blocks', leave { s with blocks := blocks } { t with blocks := blocks' } =
      { leave s t with blocks := blocks' })
    (h : Blind m) : Blind (Emit.within enter leave m) := by
  intro s
  obtain ⟨r, t, hm⟩ := h (enter s)
  exact ⟨r, leave s t, hm.within henter hleave⟩

theorem onDisk (m : DiskM α) : Blind (Emit.onDisk m) :=
  fun s => ⟨(exec m s.disk).1, { s with disk := (exec m s.disk).2 }, fun blocks => ⟨blocks, rfl⟩⟩

end Blind

/-- Code has a place for each literal, and what stands for the parent's block does not look at
blocks. -/
structure Env.Weaving (env : Env) : Prop extends env.compiler.Weaving where
  super : Blind env.superBlock

section
variable {env : Env}

theorem loopStem_blind : Blind (loopStem env) := by
  refine .get_bind (fun _ _ => rfl) fun s => ?_
  dsimp only
  split
  · exact .pure _
  · split
    · exact (Blind.modify fun _ blocks => ⟨blocks, rfl⟩).bind fun _ => .pure _
    · exact .throw _

theorem identifier_blind (name : String) : Blind (identifier env name) := by
  refine .get_bind (fun _ _ => rfl) fun s => ?_
  dsimp only
  split
  · exact (Blind.modify fun _ blocks => ⟨blocks, rfl⟩).bind fun _ =>
      loopStem_blind.bind fun _ => .pure _
  · split <;> exact .pure _

end

/-! ### Parts of expressions -/

theorem handled_writing (env : Env) (form : String → String) (e : Expr) :
    (env.writing form).compiler.handled (·.expression e) = (e.written? form).filter (· != "") := by
  show ([Extension.writer form].findSome? fun x => (x.expression e).filter (· != "")) = _
  rw [List.findSome?_singleton]
  rfl

section
variable {env : Env} (H : env.Weaving)
include H

theorem hooked_weaves {e₀ : Expr} {e : (String → String) → Expr}
    (he : ∀ form, (e form).written? form = none)
    {m₀ : EmitM String} {m : (String → String) → EmitM String} (h : Weaves Weave.fill m₀ m) :
    Weaves Weave.fill (hooked env e₀ m₀) fun form =>
      hooked (env.writing form) (e form) (m form) := by
  simp only [hooked, asked, Compiler.handled_eq_none H.extensions, handled_writing, he,
    Option.filter_none]
  exact h.inExpr

/-- The place of a literal. -/
theorem literal_weaves (value : String) :
    Weaves Weave.fill (hooked env (.str value) (pure (Text.quote value)))
      fun form => hooked (env.writing form) (.str value) (pure (Text.quote value)) := by
  have hplace : Weaves Weave.fill (inExpr (pure (Text.quote value))) fun form =>
      inExpr (pure (form value)) :=
    Weaves.inExpr (.woven (.literal value))
  intro s
  obtain ⟨r, t, h₀, hm⟩ := hplace s
  refine ⟨r, t, ?_, fun form hform => ?_⟩
  · rw [hooked, asked, Compiler.handled_eq_none H.extensions]
    exact h₀
  · have hne : form value ≠ "" := by
      obtain ⟨⟨c, cs, hcs, -⟩, -⟩ := hform value
      intro hempty
      rw [hempty] at hcs
      cases hcs
    dsimp only
    rw [hooked, asked, handled_writing, Expr.written?, Option.filter_some,
      if_pos (bne_iff_ne.2 hne)]
    exact hm form hform

end

theorem ofExcept_weaves {x : (String → String) → Except CompileError String}
    {r : Except CompileError Weave}
    (h : ∀ form, SolidForm form → x form = r.map (Weave.fill form)) :
    Weaves Weave.fill (ofExcept (x Text.quote)) fun form => ofExcept (x form) := by
  intro s
  refine ⟨r, s, ?_, fun form hform => ?_⟩
  · rw [h _ solidForm_quote]
    cases r with
    | error e => exact .throw e s
    | ok w => exact .pure _ s
  · dsimp only
    rw [h form hform]
    cases r with
    | error e => exact .throw e s
    | ok w => exact .pure _ s

theorem objectCode_weaves {env : Env} (object : Expr) {m₀ : EmitM String}
    {m : (String → String) → EmitM String} (h : Weaves Weave.fill m₀ m) :
    Weaves Weave.fill (objectCode env object m₀) fun form =>
      objectCode (env.writing form) object (m form) := by
  cases object with
  | var name => exact .text (identifier_blind name)
  | _ => exact h

theorem attrCode_weaves (attr : Expr) {m₀ : EmitM String} {m : (String → String) → EmitM String}
    (h : Weaves Weave.fill m₀ m) :
    Weaves Weave.fill (attrCode attr m₀) fun form => attrCode attr (m form) := by
  cases attr with
  | var name => exact .woven (.text name)
  | _ => exact h

/-- The codes of arguments with their literals in a form. -/
def fillAll (form : String → String) (ws : List Weave) : List String := ws.map (Weave.fill form)

theorem commas_weaves {o₀ : EmitM (List String)} {o : (String → String) → EmitM (List String)}
    (h : Weaves fillAll o₀ o) :
    Weaves Weave.fill (Code.commas <$> o₀) fun form => Code.commas <$> o form := by
  simp only [map_eq_pure_bind]
  exact h.bind fun ws => .woven (.arguments ws)

section
variable {env : Env} (H : env.Weaving)
include H

theorem callNamed_weaves (name : String) (arguments : Weave) (raw : List Arg) :
    Weaves Weave.fill (callNamed env name (arguments.fill Text.quote) raw)
      fun form => callNamed (env.writing form) name (arguments.fill form) raw := by
  have hwriter : ∀ form arguments,
      (env.writing form).compiler.handled (·.function name arguments raw) = none :=
    fun _ _ => rfl
  have hsame : ∀ form, (env.writing form).compiler.functions = env.compiler.functions :=
    fun _ => rfl
  simp only [callNamed, Compiler.handled_eq_none H.extensions, hwriter, hsame]
  cases hlookup : env.compiler.functions.lookup name with
  | some f =>
    obtain ⟨r, hr⟩ := H.functions name f hlookup arguments none raw
    exact ofExcept_weaves hr
  | none =>
    dsimp only
    by_cases hsuper : name = "super"
    · simp only [if_pos hsuper]
      exact .text H.super
    · simp only [if_neg hsuper]
      exact .woven (Code.weaving_call name _ (.fill arguments))

theorem callCode_weaves (callee : Expr) (arguments : Weave) (raw : List Arg) {m₀ : EmitM String}
    {m : (String → String) → EmitM String} (h : Weaves Weave.fill m₀ m) :
    Weaves Weave.fill (callCode env callee (arguments.fill Text.quote) raw m₀)
      fun form => callCode (env.writing form) callee (arguments.fill form) raw (m form) := by
  cases callee with
  | var name => exact callNamed_weaves H name arguments raw
  | _ => exact h.bind fun f => .woven ((Woven.fill f).apply (.fill arguments))

theorem filterNamed_weaves (name : String) (l given : Weave) (raw : List Arg) {m₀ : EmitM String}
    {m : (String → String) → EmitM String} (h : Weaves Weave.fill m₀ m) :
    Weaves Weave.fill
      (filterNamed env name (l.fill Text.quote) (given.fill Text.quote)
        (filterArgs name (l.fill Text.quote) raw) m₀)
      fun form => filterNamed (env.writing form) name (l.fill form) (given.fill form)
        (filterArgs name (l.fill form) raw) (m form) := by
  have hwriter : ∀ form arguments raw,
      (env.writing form).compiler.handled (·.filter name arguments raw) = none :=
    fun _ _ _ => rfl
  have hsame : ∀ form, (env.writing form).compiler.filters = env.compiler.filters := fun _ => rfl
  simp only [filterNamed, Compiler.handled_eq_none H.extensions, hwriter, hsame]
  cases hlookup : env.compiler.filters.lookup name with
  | some f =>
    -- the operand is the first argument, except for the filter that supplies a default
    by_cases hdefault : name = "default"
    · obtain ⟨r, hr⟩ := H.filters name f hlookup given none raw
      simp only [filterArgs, if_pos hdefault]
      exact ofExcept_weaves hr
    · obtain ⟨r, hr⟩ := H.filters name f hlookup given (some l) raw
      simp only [filterArgs, if_neg hdefault]
      exact ofExcept_weaves hr
  | none =>
    dsimp only
    by_cases hjoin : name = "join"
    · simp only [if_pos hjoin]
      exact h.bind fun g => .woven ((Woven.text "join").apply ((Woven.fill g).pair (.fill l)))
    · simp only [if_neg hjoin, Code.filter?]
      by_cases hdefault : name = "default"
      · simp only [if_pos hdefault]
        exact .woven (((((Woven.fill l).around _ _).append (.fill given)).append (.text _)).append
          (.fill l) |>.append
          (.text _))
      · simp only [if_neg hdefault]
        cases Code.filterFunctions.lookup name with
        | some f => exact .woven (Code.weaving_apply f _ (.fill given))
        | none => exact .fail env _

theorem filterCode_weaves (filter : Expr) (l : Weave) {o₀ : EmitM (List String)}
    {o : (String → String) → EmitM (List String)} {g₀ : EmitM String}
    {g : (String → String) → EmitM String}
    (ho : Weaves fillAll o₀ o) (hg : Weaves Weave.fill g₀ g) :
    Weaves Weave.fill (filterCode env filter (l.fill Text.quote) o₀ g₀)
      fun form => filterCode (env.writing form) filter (l.fill form) (o form) (g form) := by
  have hnamed := fun name given raw => filterNamed_weaves H name l given raw hg
  cases filter with
  | var name => exact hnamed name l []
  | call callee raw =>
    cases callee with
    | var name =>
      simp only [filterCode]
      by_cases hdefault : name = "default"
      · simp only [if_pos hdefault]
        cases raw.isEmpty with
        | true => exact (Weaves.woven (.fill l)).bind fun given => hnamed name given raw
        | false => exact (commas_weaves ho).bind fun given => hnamed name given raw
      · simp only [if_neg hdefault]
        refine (hooked_weaves H (fun _ => rfl) (.woven (.fill l))).bind fun first =>
          ho.bind fun rest => ?_
        exact (Weaves.woven (.arguments (first :: rest))).bind fun given => hnamed name given raw
    | _ => exact .fail env _
  | _ => exact .fail env _

omit H in
theorem testCode_weaves (test : Expr) (l : Weave) {o₀ : EmitM (List String)}
    {o : (String → String) → EmitM (List String)} {m₀ : EmitM String}
    {m : (String → String) → EmitM String} (ho : Weaves fillAll o₀ o) (h : Weaves Weave.fill m₀ m) :
    Weaves Weave.fill (testCode test (l.fill Text.quote) o₀ m₀)
      fun form => testCode test (l.fill form) (o form) (m form) := by
  have hequal : Weaves Weave.fill (do return Code.between (l.fill Text.quote) "==" (← m₀))
      fun form => do return Code.between (l.fill form) "==" (← m form) :=
    h.bind fun r => .woven ((Woven.fill l).between _ (.fill r))
  cases test with
  | var name =>
    simp only [testCode]
    rcases Code.test?_madeBy name with hnone | ⟨f, hf, hsome⟩
    · simp only [hnone]
      exact hequal
    · simp only [hsome]
      exact .woven (hf _ (.fill l))
  | call callee raw =>
    cases callee with
    | var name =>
      simp only [testCode]
      by_cases hname : name ∈ Code.operandTests
      · simp only [if_pos hname]
        exact ho.bind fun ws => .woven (.operandTest name (.fill l) (.arguments ws))
      · simp only [if_neg hname]
        exact hequal
    | _ => exact hequal
  | _ => exact hequal

end

/-! ### Expressions -/

mutual

/-- The code of an expression has a place for each of its literals. -/
theorem expr_weaves {env : Env} (H : env.Weaving) (e : Expr) :
    Weaves Weave.fill (expr env e) fun form => expr (env.writing form) e := by
  cases e with
  | integer v | double v | bool v | null | resolved v =>
    simp only [expr, lowered]
    exact hooked_weaves H (fun _ => rfl) (.woven (.text _))
  | str v =>
    simp only [expr, lowered]
    exact literal_weaves H v
  | var name =>
    simp only [expr, lowered]
    exact hooked_weaves H (fun _ => rfl) (.text (identifier_blind name))
  | property object attr =>
    simp only [expr, lowered]
    refine hooked_weaves H (fun _ => rfl)
      ((objectCode_weaves object (expr_weaves H object)).bind fun o => ?_)
    exact (attrCode_weaves attr (expr_weaves H attr)).bind fun a =>
      .woven (((Woven.fill o).append (.text _)).append (.fill a))
  | index object index =>
    simp only [expr, lowered]
    refine hooked_weaves H (fun _ => rfl)
      ((expr_weaves H object).bind fun o => (expr_weaves H index).bind fun i => ?_)
    exact .woven ((((Woven.fill o).append (.text _)).append (.fill i)).append (.text _))
  | binary op left right =>
    simp only [expr, lowered]
    refine hooked_weaves H (fun _ => rfl)
      ((expr_weaves H left).bind fun l => (expr_weaves H right).bind fun r => ?_)
    exact .woven ((Woven.fill l).binary op (.fill r))
  | unary op operand =>
    simp only [expr, lowered]
    exact hooked_weaves H (fun _ => rfl)
      ((expr_weaves H operand).bind fun w => .woven ((Woven.fill w).unary op))
  | call callee arguments =>
    have hcall : Weaves Weave.fill
        (Code.commas <$> args env arguments >>= fun x =>
          callCode env callee x arguments (expr env callee))
        fun form => Code.commas <$> args (env.writing form) arguments >>= fun x =>
          callCode (env.writing form) callee x arguments (expr (env.writing form) callee) :=
      (commas_weaves (args_weaves H arguments)).bind fun w =>
        callCode_weaves H callee w arguments (expr_weaves H callee)
    simp only [bind_map_left] at hcall
    simp only [expr, lowered]
    exact hooked_weaves H (fun _ => rfl) hcall
  | filter left filter =>
    simp only [expr, lowered]
    refine hooked_weaves H (fun _ => rfl) ((expr_weaves H left).bind fun l => ?_)
    exact filterCode_weaves H filter l (operands_weaves H filter) (glue_weaves H filter)
  | is left test =>
    simp only [expr, lowered]
    refine hooked_weaves H (fun _ => rfl) ((expr_weaves H left).bind fun l => ?_)
    exact testCode_weaves test l (operands_weaves H test) (expr_weaves H test)
  | isNot left test =>
    simp only [expr, lowered]
    refine hooked_weaves H (fun _ => rfl) ((expr_weaves H left).bind fun l => ?_)
    exact (testCode_weaves test l (operands_weaves H test) (expr_weaves H test)).bind fun w =>
      .woven ((Woven.fill w).around _ _)
  | ternary condition yes no =>
    simp only [expr, lowered]
    refine hooked_weaves H (fun _ => rfl) ((expr_weaves H condition).bind fun c => ?_)
    refine (expr_weaves H yes).bind fun y => (expr_weaves H no).bind fun n => ?_
    exact .woven
      ((((((Woven.fill c).around _ _).append (.fill y)).append (.text _)).append (.fill n)).append
        (.text _))
  | slice object start stop =>
    simp only [expr, lowered]
    refine hooked_weaves H (fun _ => rfl) ((expr_weaves H object).bind fun o => ?_)
    refine (exprOrNull_weaves H start).bind fun s => (exprOrNull_weaves H stop).bind fun e => ?_
    exact .woven ((Woven.text _).apply (.arguments [o, s, e]))
  | array items =>
    simp only [expr, lowered]
    exact hooked_weaves H (fun _ => rfl)
      ((args_weaves H items).bind fun ws => .woven ((Woven.arguments ws).around _ _))
  | enclosed inner =>
    simp only [expr, lowered]
    exact hooked_weaves H (fun _ => rfl)
      ((expr_weaves H inner).bind fun w => .woven ((Woven.fill w).around _ _))
  | unknown =>
    simp only [expr, lowered]
    exact hooked_weaves H (fun _ => rfl) (.fail env _)

theorem args_weaves {env : Env} (H : env.Weaving) (as : List Arg) :
    Weaves fillAll (args env as) fun form => args (env.writing form) as := by
  cases as with
  | nil =>
    simp only [args]
    exact .pure ⟨[], fun _ _ => rfl⟩
  | cons a rest =>
    obtain ⟨e, name⟩ := a
    simp only [args]
    refine (expr_weaves H e).bind fun w => (args_weaves H rest).bind fun ws => ?_
    obtain ⟨k, hk⟩ := (Woven.fill w).keyword name
    exact .pure (g := fun form => keyword name (w.fill form) :: fillAll form ws)
      ⟨k :: ws, fun form hform => congrArg (· :: fillAll form ws) (hk form hform)⟩

theorem operands_weaves {env : Env} (H : env.Weaving) (e : Expr) :
    Weaves fillAll (operands env e) fun form => operands (env.writing form) e := by
  cases e with
  | call callee arguments =>
    simp only [operands]
    exact args_weaves H arguments
  | _ =>
    simp only [operands]
    exact .pure ⟨[], fun _ _ => rfl⟩

theorem glue_weaves {env : Env} (H : env.Weaving) (e : Expr) :
    Weaves Weave.fill (glue env e) fun form => glue (env.writing form) e := by
  cases e with
  | call callee arguments =>
    cases arguments with
    | nil =>
      simp only [glue]
      exact .woven (.text _)
    | cons a rest =>
      obtain ⟨e, name⟩ := a
      simp only [glue]
      exact expr_weaves H e
  | _ =>
    simp only [glue]
    exact .woven (.text _)

theorem exprOrNull_weaves {env : Env} (H : env.Weaving) (e : Option Expr) :
    Weaves Weave.fill (exprOrNull env e) fun form => exprOrNull (env.writing form) e := by
  cases e with
  | none =>
    simp only [exprOrNull]
    exact .woven (.text _)
  | some e =>
    simp only [exprOrNull]
    exact expr_weaves H e

end

end Emit
end Stencil
