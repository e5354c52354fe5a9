/-
# Keywords of arguments

An argument with a keyword is emitted as the literal of the keyword, an arrow and the code of the
argument. The literal can be read wherever it stands: its end is found whatever characters the
keyword has and whatever text comes after it. So each keyword of a list of arguments stands for
itself in the code of the list, and two keywords with the same literal are the same.

Key theorems: `Emit.args_eq_mapM`, `Code.commas_split`, `Emit.keyword_literals`.
-/
import Stencil.Proofs.MacroNames

namespace Stencil

/-- Pieces of code up to the one that comes next. -/
def Code.upTo (pieces : List String) : List Char := pieces.flatMap fun p => p.toList ++ ", ".toList

/-- A piece of code among others, with what stands before it and after it. -/
theorem Code.commas_split (before : List String) (piece : String) (after : List String) :
    ∃ rest, (commas (before ++ piece :: after)).toList = upTo before ++ (piece.toList ++ rest) := by
  unfold commas upTo
  induction before with
  | nil =>
    cases after with
    | nil => exact ⟨[], by simp⟩
    | cons next after =>
      refine ⟨(", " ++ ", ".intercalate (next :: after)).toList, ?_⟩
      rw [List.nil_append, String.intercalate_cons_cons]
      simp only [String.toList_append, List.flatMap_nil, List.nil_append, List.append_assoc]
  | cons first before ih =>
    obtain ⟨rest, ih⟩ := ih
    have hne : before ++ piece :: after ≠ [] :=
      List.append_ne_nil_of_right_ne_nil _ (List.cons_ne_nil _ _)
    refine ⟨rest, ?_⟩
    rw [List.cons_append, String.intercalate_cons_of_ne_nil hne, String.toList_append,
      String.toList_append, ih, List.flatMap_cons, List.append_assoc, List.append_assoc,
      List.append_assoc]

/-- Emitting items one after another gives something for each of them. -/
theorem length_of_exec_mapM {σ α β : Type} {f : α → ExceptT CompileError (StateM σ) β} {xs : List α}
    {ys : List β} {s t : σ} (h : exec (xs.mapM f) s = (.ok ys, t)) : ys.length = xs.length := by
  induction xs generalizing ys s with
  | nil =>
    rw [List.mapM_nil, exec_pure] at h
    cases h
    rfl
  | cons x xs ih =>
    rw [List.mapM_cons, exec_bind_eq_ok] at h
    obtain ⟨y, u, -, h⟩ := h
    rw [exec_bind_eq_ok] at h
    obtain ⟨zs, v, hrest, h⟩ := h
    rw [exec_pure] at h
    cases h
    rw [List.length_cons, List.length_cons, ih hrest]

namespace Emit

/-- The code of each argument with its keyword. -/
def keyed (as : List Arg) (codes : List String) : List String :=
  List.zipWith (fun a code => keyword a.name code) as codes

/-- The arguments are emitted from left to right, and their keywords put before them. -/
theorem args_eq_mapM (env : Env) (as : List Arg) :
    args env as = keyed as <$> as.mapM fun a => expr env a.expr := by
  induction as with
  | nil =>
    rw [args, List.mapM_nil, map_pure]
    rfl
  | cons a as ih =>
    rw [args, ih, List.mapM_cons, map_bind]
    simp only [bind_map_left, map_bind, map_pure]
    rfl

/-- The code of an argument list, cut at one of its arguments. -/
theorem keyed_append {before : List Arg} {front : List String}
    (h : before.length = front.length) (a : Arg)
    (after : List Arg) (code : String) (back : List String) :
    keyed (before ++ a :: after) (front ++ code :: back) =
      keyed before front ++ keyword a.name code :: keyed after back := by
  unfold keyed
  rw [List.zipWith_append h, List.zipWith_cons_cons]

/-- The literal of a keyword stands at the start of its argument, before an arrow and the argument's
code. -/
theorem commas_keyword (before after : List String) (name code : String) :
    ∃ rest, (Code.commas (before ++ keyword (some name) code :: after)).toList =
      Code.upTo before ++ ((Text.quote name).toList ++ ((" => " ++ code).toList ++ rest)) := by
  obtain ⟨rest, hrest⟩ := Code.commas_split before (keyword (some name) code) after
  refine ⟨rest, ?_⟩
  rw [hrest, keyword]
  simp only [String.toList_append, List.append_assoc]

/-- **Keywords are literals that end where they are closed.** Whatever follows the literal of a
text, reading it gives the text and leaves what follows, so that different texts have different
literals. An argument list is emitted exactly if its expressions are, one after another. In its
code, the literal that starts at an argument with a keyword stands for the keyword and ends before
the arrow and the code of the argument. -/
theorem keyword_literals (env : Env) (as : List Arg) (s t : State) (items : List String) :
    (∀ text rest : String, Text.readQuoted? (Text.quote text ++ rest).toList =
      some (text.toList, rest.toList)) ∧
    Function.Injective Text.quote ∧
    (exec (args env as) s = (.ok items, t) ↔
      ∃ codes, exec (as.mapM fun a => expr env a.expr) s = (.ok codes, t) ∧
      items = keyed as codes) ∧
    (exec (args env as) s = (.ok items, t) →
      items.length = as.length ∧
      ∀ before e name after, as = before ++ ⟨e, some name⟩ :: after →
        ∃ code rest, items[before.length]? = some (Text.quote name ++ " => " ++ code) ∧
          (Code.commas items).toList =
            Code.upTo (items.take before.length) ++
              ((Text.quote name).toList ++ ((" => " ++ code).toList ++ rest)) ∧
          Text.readQuoted?
            ((Code.commas items).toList.drop (Code.upTo (items.take before.length)).length) =
            some (name.toList, (" => " ++ code).toList ++ rest)) := by
  have hargs : exec (args env as) s = (.ok items, t) ↔
      ∃ codes, exec (as.mapM fun a => expr env a.expr) s = (.ok codes, t) ∧
        items = keyed as codes := by
    rw [args_eq_mapM, exec_map_eq_ok]
    simp only [eq_comm]
  refine ⟨fun text rest => ?_, Text.quote_injective, hargs, fun h => ?_⟩
  · rw [String.toList_append, Text.readQuoted?_quote]
  · obtain ⟨codes, hcodes, rfl⟩ := hargs.1 h
    have hlength : codes.length = as.length := length_of_exec_mapM hcodes
    refine ⟨by rw [keyed, List.length_zipWith, hlength, Nat.min_self], ?_⟩
    rintro before e name after rfl
    have hlt : before.length < codes.length := by
      rw [hlength, List.length_append, List.length_cons]
      omega
    obtain ⟨front, code, back, rfl, hfront⟩ : ∃ front code back,
        codes = front ++ code :: back ∧ before.length = front.length :=
      ⟨codes.take before.length, codes[before.length], codes.drop (before.length + 1),
        by rw [List.getElem_cons_drop, List.take_append_drop],
          (List.length_take_of_le (Nat.le_of_lt hlt)).symm⟩
    have hkeyed : (keyed before front).length = before.length := by
      rw [keyed, List.length_zipWith, ← hfront, Nat.min_self]
    obtain ⟨rest, hrest⟩ := commas_keyword (keyed before front) (keyed after back) name code
    rw [keyed_append hfront, List.take_left' hkeyed, hrest]
    refine ⟨code, rest, ?_, rfl, ?_⟩
    · rw [← hkeyed, List.getElem?_append_right (Nat.le_refl _), Nat.sub_self]
      rfl
    · rw [List.drop_left, Text.readQuoted?_quote]

namespace Invitation

/-- Keywords with quotes and backslashes, one of them at the end, and an argument with the same
characters. -/
def arguments : List Arg :=
  [⟨.var "guest", none⟩, ⟨.str "' => \\", some "host's\\"⟩, ⟨.integer 7, some "\\'"⟩]

def env : Env := .outer Compiler.initial "invitation" fun _ _ => pure (.code "")

/-- The codes of the arguments. -/
def items : List String := ["$guest", "'host\\'s\\\\' => '\\' => \\\\'", "'\\\\\\'' => 7"]

end Invitation

/-- The first keyword is read in the middle of the list, up to its arrow. -/
theorem keyword_literals_invitation :
    exec (args Invitation.env Invitation.arguments) (.initial false .empty) =
        (.ok Invitation.items, .initial false .empty) ∧
      ∃ rest, Text.readQuoted? ((Code.commas Invitation.items).toList.drop 8) =
      some ("host's\\".toList, rest) ∧
        " => ".toList <+: rest := by
  have hargs : exec (args Invitation.env Invitation.arguments) (.initial false .empty) =
      (.ok Invitation.items, .initial false .empty) := by rfl
  obtain ⟨-, -, -, hkeys⟩ := keyword_literals Invitation.env Invitation.arguments
    (.initial false .empty)
    (.initial false .empty) Invitation.items
  obtain ⟨-, hkey⟩ := hkeys hargs
  obtain ⟨code, rest, -, -, hread⟩ := hkey [⟨.var "guest", none⟩] (.str "' => \\") "host's\\"
    [⟨.integer 7, some "\\'"⟩] rfl
  have hplace : (Code.upTo (Invitation.items.take 1)).length = 8 := by decide +kernel
  refine ⟨hargs, (" => " ++ code).toList ++ rest, ?_, ?_⟩
  · rw [← hplace]
    exact hread
  · rw [String.toList_append, List.append_assoc]
    exact List.prefix_append _ _

end Emit
end Stencil
