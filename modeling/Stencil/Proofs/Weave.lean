/-
# Code with places for literals

The code of an expression is put together from texts and from the literals of its strings. Seen as
a function of the form that literals are written in, it is a weave: texts and places, in an order
that does not depend on the form. Putting code together keeps this, and so does reducing
blanks, provided that literals begin and end with characters that are not blank: a place
is then tidied by itself, and the texts around it by what is left of their lines.

Key definitions: `Piece`, `Weave.fill`, `Weave.tidied`, `Woven`, `Weaving`.
Key theorems: `Weave.fill_tidied`, `Weave.literals_tidied`, `Woven.tidy`, `Code.weaving_call`.
-/
import Stencil.Emit.Layout
import Stencil.Proofs.Tidied

namespace Stencil

/-- A piece of code: a text, or the place of a literal, perhaps one in which blanks are reduced. -/
inductive Piece where
  | text (code : String)
  | literal (value : String) (tidied : Bool)
  deriving Repr, DecidableEq

/-- Code with places for literals. -/
abbrev Weave := List Piece

/-- Each literal begins and ends with characters that are not blank. -/
def SolidForm (form : String → String) : Prop := ∀ value, Text.IsSolid (form value)

theorem solidForm_quote : SolidForm Text.quote := Text.quote_solid

/-- A piece with its literal written in a form. -/
def Piece.fill (form : String → String) : Piece → String
  | .text code => code
  | .literal value false => form value
  | .literal value true => Text.tidy (form value)

namespace Weave

/-- The code with all literals written in a form. -/
def fill (form : String → String) (w : Weave) : String := String.join (w.map (·.fill form))

/-- The texts of the literals, in order. -/
def literals (w : Weave) : List String :=
  w.filterMap fun
    | .text _ => none
    | .literal value _ => some value

/-- The code with blanks reduced, after what has been read of its first line. -/
def tidiedFrom (l : Text.Line) : Weave → Weave
  | [] => []
  | .text code :: rest =>
    .text (String.ofList (l.tidy code.toList)) :: tidiedFrom (l.after code.toList) rest
  | .literal value _ :: rest =>
    .text (String.ofList l.pending) :: .literal value true :: tidiedFrom Text.Line.inner rest

/-- The code with blanks reduced, in texts and in literals. -/
def tidied (w : Weave) : Weave := w.tidiedFrom Text.Line.start

section
variable (form : String → String)

theorem fill_nil : fill form [] = "" := rfl

theorem fill_cons (p : Piece) (w : Weave) : fill form (p :: w) = p.fill form ++ fill form w := by
  rw [fill, List.map_cons, String.join_cons]
  rfl

theorem fill_append (v w : Weave) : fill form (v ++ w) = fill form v ++ fill form w := by
  induction v with
  | nil => rw [List.nil_append, fill_nil, String.empty_append]
  | cons p v ih => rw [List.cons_append, fill_cons, fill_cons, ih, String.append_assoc]

end

/-- Blanks are reduced in the texts and in each literal by itself. -/
theorem fill_tidiedFrom {form : String → String} (h : SolidForm form) (w : Weave) (l : Text.Line) :
    l.tidy (fill form w).toList = (fill form (w.tidiedFrom l)).toList := by
  induction w generalizing l with
  | nil => rfl
  | cons p w ih =>
    rw [fill_cons, String.toList_append, Text.Line.tidy_append]
    cases p with
    | text code =>
      rw [Piece.fill, ih, tidiedFrom, fill_cons, Piece.fill, String.toList_append,
        String.toList_ofList]
    | literal value tidied =>
      have hsolid : Text.IsSolid ((Piece.literal value tidied).fill form) := by
        cases tidied with
        | false => exact h value
        | true => exact (h value).tidy
      have hsame : Text.tidy ((Piece.literal value tidied).fill form) = Text.tidy (form value) := by
        cases tidied with
        | false => rfl
        | true => exact Text.tidy_tidy (form value)
      obtain ⟨hfrom, hafter⟩ := hsolid.tidy_from l
      rw [hfrom, hafter, ih, hsame, tidiedFrom, fill_cons, fill_cons]
      simp only [Piece.fill, String.toList_append, String.toList_ofList, List.append_assoc]

theorem fill_tidied {form : String → String} (h : SolidForm form) (w : Weave) :
    Text.tidy (fill form w) = fill form w.tidied := by
  apply String.toList_inj.1
  rw [Text.tidy_eq]
  exact fill_tidiedFrom h w Text.Line.start

/-- No literal is lost, and their order is kept. -/
theorem literals_tidied (w : Weave) : w.tidied.literals = w.literals := by
  have hfrom : ∀ (w : Weave) (l : Text.Line), (w.tidiedFrom l).literals = w.literals := by
    intro w
    induction w with
    | nil => exact fun _ => rfl
    | cons p w ih =>
      intro l
      cases p with
      | text code => exact ih _
      | literal value tidied => exact congrArg (value :: ·) (ih _)
  exact hfrom w Text.Line.start

/-- In tidied code every place is tidied. -/
theorem fill_of_mem_tidied {w : Weave} {value : String} {tidied : Bool}
    (h : Piece.literal value tidied ∈ w.tidied) :
    (Piece.literal value tidied).fill Text.quote = Text.quote (Text.neat value) := by
  have hfrom : ∀ (w : Weave) (l : Text.Line), Piece.literal value tidied ∈ w.tidiedFrom l →
      tidied = true := by
    intro w
    induction w with
    | nil =>
      intro l hmem
      cases hmem
    | cons p w ih =>
      intro l hmem
      cases p with
      | text code =>
        rw [tidiedFrom, List.mem_cons] at hmem
        rcases hmem with heq | hmem
        · cases heq
        · exact ih _ hmem
      | literal value' tidied' =>
        rw [tidiedFrom, List.mem_cons, List.mem_cons] at hmem
        rcases hmem with heq | heq | hmem
        · cases heq
        · cases heq
          rfl
        · exact ih _ hmem
  rw [hfrom w _ h]
  exact Text.tidy_quote value

end Weave

/-! ### Code that is put together -/

/-- The code is a weave of texts and literals. -/
def Woven (code : (String → String) → String) : Prop :=
  ∃ w : Weave, ∀ form, SolidForm form → w.fill form = code form

namespace Woven

variable {g h : (String → String) → String}

theorem text (code : String) : Woven fun _ => code := by
  refine ⟨[.text code], fun form _ => ?_⟩
  rw [Weave.fill_cons, Weave.fill_nil, String.append_empty]
  rfl

theorem fill (w : Weave) : Woven fun form => w.fill form := ⟨w, fun _ _ => rfl⟩

theorem literal (value : String) : Woven fun form => form value := by
  refine ⟨[.literal value false], fun form _ => ?_⟩
  rw [Weave.fill_cons, Weave.fill_nil, String.append_empty]
  rfl

theorem append (hg : Woven g) (hh : Woven h) : Woven fun form => g form ++ h form := by
  obtain ⟨v, hv⟩ := hg
  obtain ⟨w, hw⟩ := hh
  refine ⟨v ++ w, fun form hform => ?_⟩
  rw [Weave.fill_append, hv form hform, hw form hform]

theorem tidy (hg : Woven g) : Woven fun form => Text.tidy (g form) := by
  obtain ⟨w, hw⟩ := hg
  refine ⟨w.tidied, fun form hform => ?_⟩
  show w.tidied.fill form = Text.tidy (g form)
  rw [← hw form hform, Weave.fill_tidied hform]

/-- Code between two texts. -/
theorem around (before : String) (hg : Woven g) (after : String) :
    Woven fun form => before ++ g form ++ after :=
  ((text before).append hg).append (text after)

theorem apply (hg : Woven g) (hh : Woven h) : Woven fun form => Code.apply (g form) (h form) :=
  ((hg.append (text "(")).append hh).append (text ")")

theorem between (hg : Woven g) (sign : String) (hh : Woven h) :
    Woven fun form => Code.between (g form) sign (h form) :=
  (((hg.append (text " ")).append (text sign)).append (text " ")).append hh

theorem join {l : List ((String → String) → String)} (hl : ∀ g ∈ l, Woven g) :
    Woven fun form => String.join (l.map (· form)) := by
  induction l with
  | nil => exact text ""
  | cons g l ih =>
    simp only [List.map_cons, String.join_cons]
    exact (hl g List.mem_cons_self).append (ih fun x hx => hl x (List.mem_cons_of_mem _ hx))

theorem commas {l : List ((String → String) → String)} (hl : ∀ g ∈ l, Woven g) :
    Woven fun form => Code.commas (l.map (· form)) := by
  induction l with
  | nil => exact text ""
  | cons g l ih =>
    have hg := hl g List.mem_cons_self
    have hrest := ih fun x hx => hl x (List.mem_cons_of_mem _ hx)
    cases l with
    | nil =>
      simp only [List.map_cons, List.map_nil, Code.commas, String.intercalate_singleton]
      exact hg
    | cons g' l =>
      simp only [List.map_cons, Code.commas, String.intercalate_cons_cons] at hrest ⊢
      exact (hg.append (text ", ")).append hrest

theorem pair (hg : Woven g) (hh : Woven h) : Woven fun form => Code.commas [g form, h form] :=
  commas (l := [g, h]) (List.forall_mem_cons.2 ⟨hg, List.forall_mem_singleton.2 hh⟩)

/-- The codes of arguments, one after another. -/
theorem arguments (ws : List Weave) : Woven fun form => Code.commas (ws.map (Weave.fill form)) := by
  have hall := commas (l := ws.map fun w form => Weave.fill form w) fun g hg => by
    obtain ⟨w, -, rfl⟩ := List.mem_map.1 hg
    exact fill w
  simpa only [List.map_map, Function.comp_def] using hall

end Woven

/-- Code made from other code keeps its places. -/
def Weaving (make : String → String) : Prop := ∀ g, Woven g → Woven fun form => make (g form)

namespace Code

theorem weaving_const (code : String) : Weaving fun _ => code := fun _ _ => .text code

theorem weaving_apply (f : String) : Weaving (apply f) := fun _ h => (Woven.text f).apply h

theorem weaving_around (before after : String) : Weaving fun x => before ++ x ++ after :=
  fun _ h => h.around before after

theorem weaving_sect : Weaving sect := weaving_around "<?php " " ?>"

theorem weaving_print : Weaving print := weaving_around "<?= " " ?>"

theorem weaving_printEscaped : Weaving printEscaped :=
  fun g h => weaving_print _ (weaving_apply "$this->escaper->escapeHtml" g h)

theorem weaving_tagHelper (helper : TagHelper) : Weaving helper.code := by
  intro g h
  unfold TagHelper.code
  cases helper.asArray with
  | true => exact (Woven.text _).apply (h.around "[" "]")
  | false => exact (Woven.text _).apply h

/-- What is made of the arguments is decided beforehand: nothing, or code that keeps their
places. -/
def MadeBy (make : String → Option String) : Prop :=
  (∀ x, make x = none) ∨ ∃ f, Weaving f ∧ ∀ x, make x = some (f x)

theorem builtin?_madeBy (name : String) : MadeBy (builtin? name) := by
  generalize hr : builtin? name "" = r
  unfold builtin? at hr
  split at hr
  case h_13 =>
    have hother : ∀ x, builtin? name x = (tagHelpers.find? (·.name == name)).map (·.code x) := by
      intro x
      unfold builtin?
      split <;> first | contradiction | rfl
    cases hfind : tagHelpers.find? (·.name == name) with
    | none => exact .inl fun x => by rw [hother, hfind, Option.map_none]
    | some helper =>
      exact .inr ⟨helper.code, weaving_tagHelper helper,
        fun x => by rw [hother, hfind, Option.map_some]⟩
  -- those that leave their arguments out
  case h_1 | h_2 | h_7 | h_9 | h_10 => exact .inr ⟨_, weaving_const _, fun _ => rfl⟩
  all_goals exact .inr ⟨_, weaving_apply _, fun _ => rfl⟩

theorem weaving_macroCall (name : String) : Weaving (macroCall name) := fun _ h => h.around _ "])"

/-- A call by name puts its arguments in one place or leaves them out. -/
theorem weaving_call (name : String) : Weaving (call name) := by
  intro g h
  unfold call
  rcases builtin?_madeBy name with hnone | ⟨f, hf, hsome⟩
  · simp only [hnone, Option.getD_none]
    exact weaving_macroCall name g h
  · simp only [hsome, Option.getD_some]
    exact hf g h

theorem test?_madeBy (name : String) : MadeBy (test? name) := by
  generalize hr : test? name "" = r
  unfold test? at hr
  split at hr
  · exact .inr ⟨_, weaving_apply _, fun _ => rfl⟩
  · exact .inr ⟨_, weaving_around _ _, fun _ => rfl⟩
  · exact .inr ⟨_, weaving_around _ _, fun _ => rfl⟩
  · exact .inr ⟨_, weaving_apply _, fun _ => rfl⟩
  · exact .inr ⟨_, weaving_apply _, fun _ => rfl⟩
  · refine .inr ⟨_, fun g h => ?_, fun _ => rfl⟩
    exact (((h.around _ _).append h).append (.text _))
  · refine .inl fun x => ?_
    unfold test?
    split <;> first | contradiction | rfl

/-- A loop, part by part. -/
theorem Loop.code_parts (l : Loop) : l.code =
    (if l.branched then sect (Loop.var l.stem "iterated = false;") else "") ++
      (if l.recorded then l.prologue else "") ++
      l.opening ++ (if l.recorded then l.refresh else "") ++ l.guard.elim "" ifOpen ++
      (if l.branched then sect (Loop.var l.stem "iterated = true;") else "") ++ l.body ++
      l.closing := by
  unfold Loop.code
  cases l.guard <;> rfl

/-- A cached fragment, where the lifetime is another argument if there is one. -/
theorem cached_calls (key : String) (lifetime : Option String) (body : String) :
    cached key lifetime body =
    sect ("$_cache[" ++ key ++ "]" ++ " = $this->di->get('viewCache'); " ++
      ("$_cacheKey[" ++ key ++ "]") ++ " = " ++
        apply ("$_cache[" ++ key ++ "]" ++ "->start") (commas (key :: lifetime.toList)) ++
          "; if (" ++
        ("$_cacheKey[" ++ key ++ "]") ++ " === null) \x7b") ++
      body ++
      sect (apply ("$_cache[" ++ key ++ "]" ++ "->save")
        (commas (key :: lifetime.elim [] (["null", ·]))) ++
        "; \x7d else \x7b echo " ++ ("$_cacheKey[" ++ key ++ "]") ++ "; \x7d") := by
  cases lifetime with
  | none =>
    have hone : commas [key] = key := String.intercalate_singleton
    simp only [Option.toList_none, Option.elim_none, hone]
    rfl
  | some l => rfl

end Code

namespace Woven

variable {g h : (String → String) → String}

theorem operandTest (name : String) (hg : Woven g) (hh : Woven h) :
    Woven fun form => Code.operandTest name (g form) (h form) := by
  have hwrapped : ∀ before middle after : String,
      Woven fun form => before ++ g form ++ middle ++ h form ++ after :=
    fun before middle after => ((hg.around before middle).append hh).append (text after)
  by_cases hdivisible : name = "divisibleby"
  · subst hdivisible
    exact hwrapped _ _ _
  by_cases hsame : name = "sameas"
  · subst hsame
    exact hwrapped _ _ _
  · have hother : ∀ l operands : String,
        Code.operandTest name l operands = "gettype(" ++ l ++ ") === (" ++ operands ++ ")" := by
      intro l operands
      unfold Code.operandTest
      split <;> first | contradiction | rfl
    simp only [hother]
    exact hwrapped _ _ _

theorem binary (op : BinaryOp) (hg : Woven g) (hh : Woven h) :
    Woven fun form => op.code (g form) (h form) := by
  cases op with
  | pow | range | isIn => exact (text _).apply (hg.pair hh)
  | notIn => exact (text "!").append ((text _).apply (hg.pair hh))
  | _ => exact hg.between _ hh

theorem unary (op : UnaryOp) (hg : Woven g) : Woven fun form => op.code (g form) := by
  cases op with
  | not | minus | plus => exact (text _).append hg
  | isset | empty => exact (text _).apply hg
  | notIsset | notEmpty => exact (text "!").append ((text _).apply hg)

theorem keyword (name : Option String) (hg : Woven g) :
    Woven fun form => Emit.keyword name (g form) := by
  cases name with
  | none => exact hg
  | some n => exact (text (Text.quote n ++ " => ")).append hg

theorem ifOpen (hg : Woven g) : Woven fun form => Code.ifOpen (g form) :=
  Code.weaving_sect _ (hg.around _ _)

/-! ### Statements with bodies -/

section
variable (stem target : String) (key : Option String) (recorded branched : Bool)
  (source body : Weave) (guard : Option Weave)

/-- A loop with its literals in a form. -/
def loopIn (form : String → String) : Code.Loop :=
  ⟨stem, source.fill form, target, key, guard.map (Weave.fill form), body.fill form,
    recorded, branched⟩

theorem prologue : Woven fun form =>
    (loopIn stem target key recorded branched source body guard form).prologue := by
  have hsource := fill source
  unfold Code.Loop.prologue loopIn
  dsimp only
  refine Code.weaving_sect _ ?_
  -- one text after another, and the source between them
  with_reducible repeat' first | exact text _ | exact hsource | refine append ?_ ?_

theorem opening : Woven fun form =>
    (loopIn stem target key recorded branched source body guard form).opening := by
  have hsource : Woven fun form =>
      if recorded then Code.Loop.var stem "iterator" else source.fill form := by
    cases recorded with
    | true => exact text _
    | false => exact fill source
  unfold Code.Loop.opening loopIn
  dsimp only
  refine Code.weaving_sect _ ?_
  exact ((((hsource.around _ _).append (text _)).append (text _)).append (text target)).append
    (text _)

/-- A loop, whose source, guard and body have places. -/
theorem loop :
    Woven fun form => (loopIn stem target key recorded branched source body guard form).code := by
  have hprologue : Woven fun form =>
      if recorded then (loopIn stem target key recorded branched source body guard form).prologue
        else "" := by
    cases recorded with
    | true => exact prologue stem target key true branched source body guard
    | false => exact text ""
  have hopening := opening stem target key recorded branched source body guard
  have hrefresh : Woven fun form =>
      if recorded then (loopIn stem target key recorded branched source body guard form).refresh
        else "" := by
    unfold Code.Loop.refresh loopIn
    dsimp only
    exact text _
  have hguard : Woven fun form => (guard.map (Weave.fill form)).elim "" Code.ifOpen := by
    cases guard with
    | none => exact text ""
    | some w => exact (fill w).ifOpen
  have hclosing : Woven fun form =>
      (loopIn stem target key recorded branched source body guard form).closing := by
    unfold Code.Loop.closing loopIn
    simp only [Option.isSome_map]
    exact text _
  have hmark : ∀ code : String, Woven fun _ =>
      if branched then Code.sect (Code.Loop.var stem code) else "" :=
    fun code => text _
  simp only [Code.Loop.code_parts]
  exact (((((((hmark _).append hprologue).append hopening).append hrefresh).append hguard).append
    (hmark _)).append
    (fill body)).append hclosing

end

/-- A macro, whose parameters and body have places. -/
theorem macroDef (name : String) (params : List Weave) (body : Weave) :
    Woven fun form => Code.Macro.code name (params.map (Weave.fill form)) (body.fill form) := by
  have hparams : Woven fun form => String.join (params.map (Weave.fill form)) := by
    have hall := join (l := params.map fun w form => Weave.fill form w) fun g hg => by
      obtain ⟨w, -, rfl⟩ := List.mem_map.1 hg
      exact fill w
    simpa only [List.map_map, Function.comp_def] using hall
  unfold Code.Macro.code
  simp only [List.isEmpty_map]
  cases params.isEmpty with
  | true => exact ((text _).append (fill body)).append (text _)
  | false => exact ((hparams.around _ _).append (fill body)).append (text _)

/-- A cached fragment, whose key, lifetime and body have places. -/
theorem cached (key : Weave) (lifetime : Option Weave) (body : Weave) :
    Woven fun form => Code.cached (key.fill form) (lifetime.map (Weave.fill form))
      (body.fill form) := by
  have hkey := fill key
  have hslot : Woven fun form => "$_cache[" ++ key.fill form ++ "]" := hkey.around _ _
  have hfound : Woven fun form => "$_cacheKey[" ++ key.fill form ++ "]" := hkey.around _ _
  have hstart : Woven fun form =>
      Code.commas (key.fill form :: (lifetime.map (Weave.fill form)).toList) := by
    cases lifetime with
    | none => exact arguments [key]
    | some w => exact arguments [key, w]
  have hsave : Woven fun form =>
      Code.commas (key.fill form :: (lifetime.map (Weave.fill form)).elim [] (["null", ·])) := by
    cases lifetime with
    | none => exact arguments [key]
    | some w =>
      have hthree :=
        commas (l := [fun form => key.fill form, fun _ => "null", fun form => w.fill form]) ?_
      · exact hthree
      · simp only [List.forall_mem_cons, List.not_mem_nil, false_imp_iff, implies_true, and_true]
        exact ⟨hkey, text _, fill w⟩
  have hopen := (hslot.append (text "->start")).apply hstart
  have hclose := (hslot.append (text "->save")).apply hsave
  simp only [Code.cached_calls]
  refine append (append (Code.weaving_sect _ ?_) (fill body)) (Code.weaving_sect _ ?_)
  · exact ((((((hslot.append (text _)).append hfound).append (text _)).append hopen).append
      (text _)).append
      hfound).append (text _)
  · exact ((hclose.append (text _)).append hfound).append (text _)

end Woven
end Stencil
