/-
# Names of macros

A macro is kept under the literal of its name, and a call passes the name between quotes as it is.
Both are read by the rules for single-quoted literals. The first stands for the name whatever its
characters are. The second does so exactly if the name has no quote, no two backslashes in a row and
no backslash at its end; of any other name a call asks for a macro that was defined under another
name, or the literal ends too soon or too late.

Key definitions: `Text.verbatim`, `Code.functionNames`, `Compiler.CallsMacro`.
Key theorems: `Text.readQuoted?_quote`, `Text.readQuoted?_bare_iff`, `Emit.expr_macroCall`,
`Emit.macro_name_literals`.
-/
import Stencil.Proofs.ParentCalls

namespace Stencil

/-! ### Texts between quotes -/

namespace Text

theorem readQuotedBody?_escaped {d : Char} (h : d = '\\' ∨ d = apostrophe) (cs : List Char) :
    readQuotedBody? ('\\' :: d :: cs) = (readQuotedBody? cs).map fun p => (d :: p.1, p.2) := by
  have hslash : '\\' ≠ apostrophe := by decide
  simp [readQuotedBody?, h, hslash]

theorem readQuotedBody?_quoteChar (c : Char) (cs : List Char) :
    readQuotedBody? (quoteChar c ++ cs) = (readQuotedBody? cs).map fun p => (c :: p.1, p.2) := by
  by_cases h : c = '\\' ∨ c = apostrophe
  · rw [quoteChar, if_pos h]
    exact readQuotedBody?_escaped h cs
  · rw [quoteChar, if_neg h]
    rw [not_or] at h
    exact readQuotedBody?_plain h.1 h.2 cs

/-- The literal of a text stands for the text and ends where it is closed. -/
theorem readQuoted?_quote (text : String) (rest : List Char) :
    readQuoted? ((quote text).toList ++ rest) = some (text.toList, rest) := by
  have hbody : ∀ cs : List Char,
      readQuotedBody? (cs.flatMap quoteChar ++ apostrophe :: rest) = some (cs, rest) := by
    intro cs
    induction cs with
    | nil => exact readQuotedBody?_close rest
    | cons c cs ih =>
      rw [List.flatMap_cons, List.append_assoc, readQuotedBody?_quoteChar, ih]
      rfl
  have hchars : (quote text).toList ++ rest =
      apostrophe :: (text.toList.flatMap quoteChar ++ apostrophe :: rest) := by
    simp [quote, quoteChars]
  rw [hchars, readQuoted?, if_pos rfl, hbody]

theorem quote_injective : Function.Injective quote := by
  intro a b h
  have hread := readQuoted?_quote a []
  rw [h, readQuoted?_quote] at hread
  exact String.toList_inj.1 (Prod.mk.inj (Option.some.inj hread)).1.symm

/-- Reading takes at least one character for each that it gives, and one for the closing quote. -/
theorem length_of_readQuotedBody? {cs s r : List Char} (h : readQuotedBody? cs = some (s, r)) :
    s.length + r.length < cs.length := by
  fun_induction readQuotedBody? cs generalizing s r with
  | case1 => cases h
  | case2 cs =>
    cases h
    simp
  | case3 d ds _ _ ih | case4 d ds _ _ ih | case6 d ds _ _ ih =>
    obtain ⟨p, hp, heq⟩ := Option.map_eq_some_iff.1 h
    cases heq
    have hless := ih hp
    simp only [List.length_cons] at hless ⊢
    omega
  | case5 => cases h

/-- A text that stands for itself between quotes: each backslash has another character after it. -/
def verbatim : List Char → Bool
  | [] => true
  | c :: cs => c != apostrophe && (c != '\\' || cs.head?.any (· != '\\')) && verbatim cs

theorem verbatim_iff (cs : List Char) :
    verbatim cs = true ↔
      apostrophe ∉ cs ∧ ¬ ['\\', '\\'] <:+: cs ∧ cs.getLast? ≠ some '\\' := by
  induction cs with
  | nil => simp [verbatim]
  | cons c cs ih =>
    have hpair : ['\\', '\\'] <+: c :: cs ↔ c = '\\' ∧ cs.head? = some '\\' := by
      cases cs <;> simp [List.cons_prefix_cons, eq_comm]
    rw [verbatim, Bool.and_eq_true, ih, List.infix_cons_iff, hpair]
    cases cs with
    | nil => grind
    | cons d ds =>
      rw [List.getLast?_cons_cons]
      simp only [List.head?_cons, Option.any_some, Option.some.injEq]
      grind

/-- Between quotes a text stands for itself exactly if it is `verbatim`. -/
theorem readQuotedBody?_bare_iff (cs rest : List Char) :
    readQuotedBody? (cs ++ apostrophe :: rest) = some (cs, rest) ↔ verbatim cs = true := by
  induction cs with
  | nil => simp [readQuotedBody?_close, verbatim]
  | cons c cs ih =>
    by_cases hquote : c = apostrophe
    · -- the literal ends at once
      subst hquote
      simp [readQuotedBody?_close, verbatim]
    by_cases hback : c = '\\'
    · subst hback
      cases cs with
      | nil =>
        -- the closing quote is a character of the text
        rw [List.singleton_append, readQuotedBody?_escaped (.inr rfl)]
        simp [verbatim, Ne.symm hquote]
      | cons d ds =>
        rw [List.cons_append, List.cons_append]
        by_cases hd : d = '\\'
        · -- two characters are read as one, so one is missing at the end
          subst hd
          rw [readQuotedBody?_escaped (.inl rfl)]
          refine iff_of_false (fun h => ?_) (by simp [verbatim])
          obtain ⟨p, hp, heq⟩ := Option.map_eq_some_iff.1 h
          cases p
          cases heq
          have hless := length_of_readQuotedBody? hp
          simp only [List.length_cons, List.length_append] at hless
          omega
        by_cases hd' : d = apostrophe
        · subst hd'
          rw [readQuotedBody?_escaped (.inr rfl)]
          simp [verbatim, Ne.symm hquote]
        · rw [List.cons_append, readQuotedBody?_plain hd hd'] at ih
          rw [readQuotedBody?_kept hd hd']
          have hsame : verbatim ('\\' :: d :: ds) = verbatim (d :: ds) := by
            simp [verbatim, hd, hquote]
          rw [hsame, ← ih]
          simp [Option.map_eq_some_iff]
    · rw [List.cons_append, readQuotedBody?_plain hback hquote]
      have hsame : verbatim (c :: cs) = verbatim cs := by simp [verbatim, hback, hquote]
      rw [hsame, ← ih]
      simp [Option.map_eq_some_iff]

/-- A text between quotes is read as itself exactly if it has no quote, no two backslashes in a row
and no backslash at its end. -/
theorem readQuoted?_bare_iff (text : String) (rest : List Char) :
    readQuoted? (("'" ++ text ++ "'").toList ++ rest) = some (text.toList, rest) ↔
      apostrophe ∉ text.toList ∧ ¬ ['\\', '\\'] <:+: text.toList ∧
      text.toList.getLast? ≠ some '\\' := by
  have hchars : ("'" ++ text ++ "'").toList ++ rest =
      apostrophe :: (text.toList ++ apostrophe :: rest) := by
    simp [apostrophe]
  rw [hchars, readQuoted?, if_pos rfl, readQuotedBody?_bare_iff, verbatim_iff]

end Text

/-! ### Calls of macros -/

/-- The functions that are built in. -/
def Code.functionNames : List String :=
  ["content", "get_content", "partial", "url", "static_url", "date", "time", "dump", "version",
    "version_id", "preload", "constant"] ++ tagHelpers.map (·.name)

theorem Code.builtin?_eq_none {name : String} (h : name ∉ functionNames) (arguments : String) :
    builtin? name arguments = none := by
  unfold functionNames at h
  rw [List.mem_append, not_or] at h
  obtain ⟨hplain, htag⟩ := h
  unfold builtin?
  split <;> first | exact absurd (by decide) hplain | skip
  have hfind : tagHelpers.find? (·.name == name) = none := by
    rw [List.find?_eq_none]
    intro helper hmem hname
    exact htag (List.mem_map.2 ⟨helper, hmem, by simpa using hname⟩)
  rw [hfind]
  rfl

/-- A call by this name is one of a macro: no extension and no registered function takes it, it is
not built in and not the call of the parent's block. -/
structure Compiler.CallsMacro (c : Compiler) (name : String) : Prop where
  unhandled : ∀ arguments raw, c.handled (·.function name arguments raw) = none
  unregistered : c.functions.lookup name = none
  other : name ∉ Code.functionNames
  notSuper : name ≠ "super"

/-- A call passes the name between quotes. -/
theorem Code.macroCall_eq (name arguments : String) :
    macroCall name arguments =
      "$this->callMacro(" ++ ("'" ++ name ++ "'") ++ ", [" ++ arguments ++ "])" := by
  have hopen : "$this->callMacro('" = "$this->callMacro(" ++ "'" := by decide
  have hclose : "', [" = "'" ++ ", [" := by decide
  unfold macroCall
  rw [hopen, hclose]
  simp only [String.append_assoc]

namespace Emit

/-- A call of a macro is its arguments and then the call by name. -/
theorem expr_macroCall {env : Env} {name : String} {as : List Arg}
    (h : env.compiler.CallsMacro name)
    (hask : env.compiler.handled (·.expression (.call (.var name) as)) = none) :
    expr env (.call (.var name) as) =
      inExpr ((fun given => Code.macroCall name (Code.commas given)) <$> args env as) := by
  have hnamed : ∀ given : String,
      callNamed env name given as = pure (Code.macroCall name given) := by
    intro given
    rw [callNamed, h.unhandled, h.unregistered]
    dsimp only
    rw [if_neg h.notSuper, Code.call, Code.builtin?_eq_none h.other, Option.getD_none]
  rw [expr, hooked, asked, hask, lowered]
  simp only [callCode, hnamed]
  rw [map_eq_pure_bind]

/-- A definition has the literal of the name as its key wherever it has one. -/
theorem macroDef_code (name : String) (parameters : List String) (body : String) :
    ∃ header, Code.Macro.code name parameters body =
      "<?php $this->macros[" ++ Text.quote name ++ "] = function(" ++ header ++ body ++
        "<?php \x7d; $this->macros[" ++ Text.quote name ++ "] = \\Closure::bind($this->macros[" ++
        Text.quote name ++ "], $this); ?>" := by
  have hopen : "<?php $this->macros[" = "<?php " ++ "$this->macros[" := by decide
  have hnext : "<?php \x7d; $this->macros[" = "<?php " ++ ("\x7d; " ++ "$this->macros[") := by
    decide
  have hbind : "] = \\Closure::bind($this->macros[" =
      "]" ++ (" = \\Closure::bind(" ++ "$this->macros[") := by decide
  have hend : "], $this); ?>" = "]" ++ (", $this);" ++ " ?>") := by decide
  have hplain : " = function() \x7b ?>" = " = function(" ++ ") \x7b ?>" := by decide
  have hgiven : " = function($__p = []) \x7b " = " = function(" ++ "$__p = []) \x7b " := by decide
  have hkey : "] = function(" = "]" ++ " = function(" := by decide
  refine ⟨if parameters.isEmpty then ") \x7b ?>"
    else "$__p = []) \x7b " ++ String.join parameters ++ "?>", ?_⟩
  unfold Code.Macro.code Code.Macro.reference Code.sect
  rw [hopen, hnext, hbind, hend, hkey]
  by_cases hnone : parameters.isEmpty = true
  · simp only [hnone, if_true, hplain, String.append_assoc]
  · simp only [hnone, if_false, hgiven, String.append_assoc, Bool.false_eq_true]

theorem exec_macroDef {env : Env} {mode : Mode} {name : String} {params : List Parameter}
    {body : List Node} {s t : State} {code : String}
    (h : exec (stmt env mode (.macroDef name params body)) s = (.ok code, t)) :
    ∃ given inner, code = Code.Macro.code name given inner := by
  rw [stmt] at h
  obtain ⟨-, s₁, -, h⟩ := exec_bind_eq_ok.1 h
  obtain ⟨given, s₂, -, h⟩ := exec_bind_eq_ok.1 h
  obtain ⟨inner, s₃, -, h⟩ := exec_bind_eq_ok.1 h
  cases h
  exact ⟨given, inner, rfl⟩

theorem exec_macroCall {env : Env} {name : String} {as : List Arg}
    (h : env.compiler.CallsMacro name)
    (hask : env.compiler.handled (·.expression (.call (.var name) as)) = none) {s t : State}
    {code : String} (hcode : exec (expr env (.call (.var name) as)) s = (.ok code, t)) :
    ∃ given, code = Code.macroCall name (Code.commas given) := by
  rw [expr_macroCall h hask, inExpr, exec_within] at hcode
  obtain ⟨hresult, -⟩ := Prod.mk.inj hcode
  obtain ⟨given, -, rfl⟩ := exec_map_eq_ok.1 (Prod.ext hresult rfl)
  exact ⟨given, rfl⟩

/-- **Names of macros.** Let a call by `name` be one of a macro. Every definition of the macro has
one and the same key in its three places, a literal that stands for the name. Every call passes the
name between quotes, as it is; and this stands for the name exactly if there is no quote in it, no
two backslashes are next to each other and it does not end in a backslash. -/
theorem macro_name_literals (env : Env) (name : String) (h : env.compiler.CallsMacro name) :
    (∃ key, (∀ rest, Text.readQuoted? (key.toList ++ rest) = some (name.toList, rest)) ∧
      ∀ (mode : Mode) (params : List Parameter) (body : List Node) (s t : State) (code : String),
        exec (stmt env mode (.macroDef name params body)) s = (.ok code, t) →
        ∃ header inner, code = "<?php $this->macros[" ++ key ++ "] = function(" ++
          header ++ inner ++
          "<?php \x7d; $this->macros[" ++ key ++ "] = \\Closure::bind($this->macros[" ++ key ++
            "], $this); ?>") ∧
    ∃ literal, literal = "'" ++ name ++ "'" ∧
      (∀ (as : List Arg) (s t : State) (code : String),
        env.compiler.handled (·.expression (.call (.var name) as)) = none →
        exec (expr env (.call (.var name) as)) s = (.ok code, t) →
        ∃ given, code = "$this->callMacro(" ++ literal ++ ", [" ++ given ++ "])") ∧
      ∀ rest, Text.readQuoted? (literal.toList ++ rest) = some (name.toList, rest) ↔
        Text.apostrophe ∉ name.toList ∧ ¬ ['\\', '\\'] <:+: name.toList ∧
          name.toList.getLast? ≠ some '\\' := by
  refine ⟨⟨Text.quote name, Text.readQuoted?_quote name, ?_⟩, "'" ++ name ++ "'", rfl, ?_,
    Text.readQuoted?_bare_iff name⟩
  · intro mode params body s t code hcode
    obtain ⟨given, inner, rfl⟩ := exec_macroDef hcode
    obtain ⟨header, hheader⟩ := macroDef_code name given inner
    exact ⟨header, inner, hheader⟩
  · intro as s t code hask hcode
    obtain ⟨given, rfl⟩ := exec_macroCall h hask hcode
    exact ⟨Code.commas given, Code.macroCall_eq name _⟩

namespace Shop

/-- An outermost template with nothing registered. -/
def env : Env := .outer Compiler.initial "shop" fun _ _ => pure (.code "")

/-- The definition of a macro and a call of it. -/
def tree (name : String) : Template :=
  [.mk (.macroDef name [] [.mk (.text "hi") .unknown]) .unknown,
    .mk (.echo (some (.call (.var name) []))) .unknown]

/-- No extension and no function is registered. -/
theorem callsMacro {name : String} (h : name ∉ Code.functionNames) (hsuper : name ≠ "super") :
    Compiler.initial.CallsMacro name := ⟨fun _ _ => rfl, rfl, h, hsuper⟩

end Shop

/-- A name with a quote: the key of its definition stands for it, and what a call passes does
not. -/
theorem macro_name_literals_shop :
    Compiler.initial.CallsMacro "it's" ∧
      (∃ key header inner, (∀ rest, Text.readQuoted? (key.toList ++ rest) =
        some ("it's".toList, rest)) ∧
        (exec (stmt Shop.env .page (.macroDef "it's" [] [.mk (.text "hi") .unknown]))
          (.initial false .empty)).1 =
          .ok ("<?php $this->macros[" ++ key ++ "] = function(" ++ header ++ inner ++
            "<?php \x7d; $this->macros[" ++
            key ++ "] = \\Closure::bind($this->macros[" ++ key ++ "], $this); ?>")) ∧
      ∃ literal given, (exec (expr Shop.env (.call (.var "it's") [])) (.initial false .empty)).1 =
          .ok ("$this->callMacro(" ++ literal ++ ", [" ++ given ++ "])") ∧
        ∀ rest, Text.readQuoted? (literal.toList ++ rest) ≠ some ("it's".toList, rest) := by
  have hcalls := Shop.callsMacro (by decide : "it's" ∉ Code.functionNames) (by decide)
  obtain ⟨⟨key, hkey, hdef⟩, literal, -, hcall, hread⟩ := macro_name_literals Shop.env "it's" hcalls
  obtain ⟨header, inner, hcode⟩ :=
    hdef .page [] [.mk (.text "hi") .unknown] (.initial false .empty) _ _ rfl
  obtain ⟨given, hgiven⟩ := hcall [] (.initial false .empty) _ _ rfl rfl
  refine ⟨hcalls, ⟨key, header, inner, hkey, congrArg Except.ok hcode⟩, literal, given,
    congrArg Except.ok hgiven, fun rest h => ?_⟩
  exact ((hread rest).1 h).1 (by decide)

/-- The call of a macro whose name has a quote in it asks for another one. -/
theorem macro_call_misnamed :
    (exec (page Shop.env (Shop.tree "it's")) (.initial false .empty)).1.toOption =
        some
          ("<?php $this->macros['it\\'s'] = function() \x7b ?>hi<?php \x7d; $this->macros['it\\'s'] = " ++
          "\\Closure::bind($this->macros['it\\'s'], $this); ?><?= $this->callMacro('it's', []) ?>") ∧
      Text.readQuoted? "'it\\'s'] = function() \x7b ?>".toList =
        some ("it's".toList, "] = function() \x7b ?>".toList) ∧
      Text.readQuoted? "'it's', []) ?>".toList = some ("it".toList, "s', []) ?>".toList) ∧
      "it".toList ≠ "it's".toList :=
  ⟨by decide +kernel, by decide +kernel, by decide +kernel, by decide⟩

end Emit
end Stencil
