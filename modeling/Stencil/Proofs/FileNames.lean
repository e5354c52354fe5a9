/-
# Names of compiled files

Below a root, a template's compiled file is named after the template's whole path. The
marks in the path (slashes, backslashes and colons) are replaced by the separator, and the
whole is put in lower case. So the name cannot tell marks or cases apart. What it does tell
are the names in the path, up to case, as long as the separator can be found again: it
needs a character that is in none of them. The suffix for a layout begins and ends with the
separator, and so looks like marks and a name; only a path that ends in a mark is
mistaken for it.

Key definitions: `Compiler.isMark`, `Compiler.names`, `Compiler.suffix`, `Compiler.EndsInMark`.
Key theorems: `intercalate_inj`, `Compiler.fold_replaceMarks`, `Compiler.compiledPath_eq_iff`,
`Compiler.names_eq_of_lower`, `Compiler.endsInMark_of_lower`.
-/
import Mathlib.Data.List.Basic
import Stencil.Artifact.Name
import Stencil.Proofs.LetterCase

namespace Stencil

/-! ### Texts put together with a separator -/

/-- What stands before the first `x`, and what after it. -/
theorem append_cons_inj {α : Type} {x : α} :
    ∀ {a b s t : List α}, x ∉ a → x ∉ b → a ++ x :: s = b ++ x :: t →
    a = b ∧ s = t
  | [], [], _, _, _, _, h => ⟨rfl, (List.cons.inj h).2⟩
  | [], y :: b, _, _, _, hb, h => absurd (List.cons.inj h).1 (List.ne_of_not_mem_cons hb)
  | y :: a, [], _, _, ha, _, h => absurd (List.cons.inj h).1.symm (List.ne_of_not_mem_cons ha)
  | y :: a, z :: b, s, t, ha, hb, h => by
    obtain ⟨rfl, hrest⟩ := List.cons.inj h
    obtain ⟨rfl, rfl⟩ := append_cons_inj (List.not_mem_of_not_mem_cons ha)
      (List.not_mem_of_not_mem_cons hb) hrest
    exact ⟨rfl, rfl⟩

/-- What stands after the last `x`. -/
theorem append_cons_inj_right {α : Type} {x : α} {a b s t : List α} (hs : x ∉ s) (ht : x ∉ t)
    (h : a ++ x :: s = b ++ x :: t) : s = t := by
  have hrev := congrArg List.reverse h
  simp only [List.reverse_append, List.reverse_cons, List.append_assoc,
    List.singleton_append] at hrev
  have hsame := (append_cons_inj (by simpa using hs) (by simpa using ht) hrev).1
  exact List.reverse_injective hsame

theorem intercalate_append_cons {α : Type} (sep a l : List α) : ∀ rest : List (List α),
    sep.intercalate ((a ++ l) :: rest) = a ++ sep.intercalate (l :: rest)
  | [] => by simp
  | r :: rest => by simp [List.intercalate_cons_cons]

/-- The texts are found again if a character of the separator is in none of them. -/
theorem intercalate_inj {α : Type} {x : α} {sep : List α} (hx : x ∈ sep) :
    ∀ {ps qs : List (List α)},
    ps ≠ [] → qs ≠ [] → (∀ p ∈ ps, x ∉ p) → (∀ q ∈ qs, x ∉ q) →
      sep.intercalate ps = sep.intercalate qs → ps = qs
  | [p], [q], _, _, _, _, h => by simpa using h
  | [p], q :: q' :: qs, _, _, hp, _, h => by
    have hmem : x ∈ sep.intercalate [p] := by
      rw [h, List.intercalate_cons_cons]
      simp [hx]
    exact absurd (by simpa using hmem) (hp p List.mem_cons_self)
  | p :: p' :: ps, [q], _, _, _, hq, h => by
    have hmem : x ∈ sep.intercalate [q] := by
      rw [← h, List.intercalate_cons_cons]
      simp [hx]
    exact absurd (by simpa using hmem) (hq q List.mem_cons_self)
  | p :: p' :: ps, q :: q' :: qs, _, _, hp, hq, h => by
    obtain ⟨u, v, rfl, hu⟩ := List.eq_append_cons_of_mem hx
    rw [List.forall_mem_cons] at hp hq
    rw [List.intercalate_cons_cons, List.intercalate_cons_cons] at h
    have hcut : (p ++ u) ++ x :: (v ++ (u ++ x :: v).intercalate (p' :: ps)) =
        (q ++ u) ++ x :: (v ++ (u ++ x :: v).intercalate (q' :: qs)) := by simpa using h
    obtain ⟨hhead, htail⟩ := append_cons_inj (by simp [hp.1, hu]) (by simp [hq.1, hu]) hcut
    rw [List.append_cancel_right hhead,
      intercalate_inj hx (by simp) (by simp) hp.2 hq.2 (List.append_cancel_left htail)]

theorem intercalate_concat {α : Type} (sep l : List α) : ∀ {ps : List (List α)}, ps ≠ [] →
    sep.intercalate (ps ++ [l]) = sep.intercalate ps ++ (sep ++ l)
  | [p], _ => by simp [List.intercalate_cons_cons]
  | p :: p' :: ps, _ => by
    have ih := intercalate_concat sep l (List.cons_ne_nil p' ps)
    rw [List.cons_append, List.cons_append, List.intercalate_cons_cons, ← List.cons_append, ih,
      List.intercalate_cons_cons, List.append_assoc, List.append_assoc, List.append_assoc]

/-- The last text is empty if the whole ends in the separator. -/
theorem getLast_eq_nil_of_intercalate {α : Type} {x : α} {sep a : List α} (hx : x ∈ sep)
    {ps : List (List α)}
    (hne : ps ≠ []) (hp : ∀ p ∈ ps, x ∉ p) (h : sep.intercalate ps = a ++ sep) :
    ps.dropLast ≠ [] ∧ ps.getLast hne = [] := by
  have hlast : x ∉ ps.getLast hne := hp _ (List.getLast_mem hne)
  rw [← List.dropLast_append_getLast hne] at h
  by_cases hinit : ps.dropLast = []
  · rw [hinit, List.nil_append, List.intercalate_singleton] at h
    rw [h] at hlast
    exact absurd (List.mem_append_right a hx) hlast
  · refine ⟨hinit, ?_⟩
    -- The last `x` on either side is that of the last separator.
    obtain ⟨v, u, hrev, hv⟩ := List.eq_append_cons_of_mem (List.mem_reverse.2 hx)
    have hsep : sep = u.reverse ++ x :: v.reverse := by
      rw [← List.reverse_reverse sep, hrev]
      simp
    rw [intercalate_concat _ _ hinit, hsep] at h
    have hcut : (sep.intercalate ps.dropLast ++ u.reverse) ++ x :: (v.reverse ++ ps.getLast hne) =
        (a ++ u.reverse) ++ x :: v.reverse := by simpa [hsep] using h
    have htail := append_cons_inj_right (by simp [hv, hlast]) (by simpa using hv) hcut
    exact List.append_cancel_left (htail.trans (List.append_nil _).symm)

namespace Compiler

/-! ### Names of compiled files -/

/-- The characters of a path that a separator replaces. -/
def isMark (c : Char) : Bool := c = '/' ∨ c = '\\' ∨ c = ':'

/-- The names of a path: the texts between its marks, without their case. -/
def names (path : String) : List (List Char) :=
  (path.toList.splitOnP isMark).map (·.flatMap Text.foldChar)

theorem names_ne_nil (path : String) : names path ≠ [] := by
  simp [names, List.splitOnP_ne_nil]

/-- What is added to the name of a compiled file for the mode. -/
def suffix (separator : String) : Mode → String
  | .page => ""
  | .layout => separator ++ "e" ++ separator

/-- A path with its marks replaced is its names, with separators between them. -/
theorem fold_replaceMarks (separator path : String) :
    Text.fold (replaceMarks separator path) = (Text.fold separator).intercalate (names path) := by
  unfold Text.fold replaceMarks names
  rw [String.toList_ofList]
  induction path.toList with
  | nil => rfl
  | cons c cs ih =>
    obtain ⟨name, rest, hsplit⟩ := List.exists_cons_of_ne_nil (List.splitOnP_ne_nil isMark cs)
    rw [hsplit] at ih
    rw [List.flatMap_cons, List.flatMap_append, ih, List.splitOnP_cons_eq_if_modifyHead]
    by_cases hc : c = '/' ∨ c = '\\' ∨ c = ':'
    · rw [if_pos hc, if_pos (by simpa [isMark] using hc), hsplit]
      simp only [List.map_cons, List.flatMap_nil, List.intercalate_cons_cons, List.nil_append]
    · rw [if_neg hc, if_neg (by simpa [isMark] using hc), hsplit, List.modifyHead_cons]
      simp only [List.map_cons, List.flatMap_cons, List.flatMap_nil, List.append_nil,
        intercalate_append_cons]

/-- The path ends in a mark. -/
def EndsInMark (path : String) : Prop := ∃ c, path.toList.getLast? = some c ∧ isMark c = true

theorem splitOnP_concat {α : Type} {p : α → Bool} {c : α} (hc : p c = false) : ∀ cs : List α,
    ∃ init last, (cs ++ [c]).splitOnP p = init ++ [last ++ [c]]
  | [] => ⟨[], [], by simp [List.splitOnP_cons_eq_if_modifyHead, hc]⟩
  | a :: cs => by
    obtain ⟨init, last, ih⟩ := splitOnP_concat hc cs
    rw [List.cons_append, List.splitOnP_cons_eq_if_modifyHead, ih]
    split
    · exact ⟨[] :: init, last, rfl⟩
    · cases init with
      | nil => exact ⟨[], a :: last, rfl⟩
      | cons i init => exact ⟨(a :: i) :: init, last, rfl⟩

/-- A path of more than one name whose last one is empty ends in a mark. -/
theorem endsInMark_of_names {path : String} (hinit : (names path).dropLast ≠ [])
    (hlast : (names path).getLast (names_ne_nil path) = []) : EndsInMark path := by
  rcases List.eq_nil_or_concat path.toList with hnil | ⟨cs, c, hpath⟩
  · simp [names, hnil] at hinit
  · refine ⟨c, by simp [hpath], ?_⟩
    by_contra hc
    obtain ⟨init, last, hsplit⟩ := splitOnP_concat (Bool.not_eq_true _ ▸ hc) cs
    simp [names, hpath, hsplit, Text.foldChar_ne_nil] at hlast

/-- The name of a compiled file below a root. -/
theorem compiledPath_eq {c : Compiler} {root : String} (hpath : c.options.path = some (.root root))
    (hroot : root ≠ "") (d : Disk) (template : String) (mode : Mode) :
    c.compiledPath d template mode =
      .ok (root ++ c.options.stem ++
        (flatten d c.options.separator template ++ suffix c.options.separator mode ++
        c.options.extension)) := by
  unfold compiledPath rootedPath
  rw [hpath]
  dsimp only
  rw [String.isEmpty_eq_false_iff.2 hroot]
  cases mode <;> simp [suffix, String.append_assoc]

/-- Two templates go by one name exactly if their paths and modes make the same text. -/
theorem compiledPath_eq_iff {c : Compiler} {root : String}
    (hpath : c.options.path = some (.root root))
    (hroot : root ≠ "") {d₁ d₂ : Disk} {template₁ template₂ p₁ p₂ : String}
    (h₁ : d₁.canonical? template₁ = some p₁) (h₂ : d₂.canonical? template₂ = some p₂)
    (mode₁ mode₂ : Mode) :
    c.compiledPath d₁ template₁ mode₁ = c.compiledPath d₂ template₂ mode₂ ↔
      Text.lower (replaceMarks c.options.separator p₁) ++ suffix c.options.separator mode₁ =
        Text.lower (replaceMarks c.options.separator p₂) ++ suffix c.options.separator mode₂ := by
  rw [compiledPath_eq hpath hroot, compiledPath_eq hpath hroot, flatten, flatten, h₁, h₂]
  simp only [Option.getD_some, Except.ok.injEq, ← String.toList_inj, String.toList_append,
    List.append_cancel_left_eq, List.append_cancel_right_eq]

variable {separator p q : String} {x : Char}

/-- The names of two paths that are flattened alike are the same. -/
theorem names_eq_of_lower (hx : x ∈ Text.fold separator) (hp : ∀ name ∈ names p, x ∉ name)
    (hq : ∀ name ∈ names q, x ∉ name)
    (h : Text.lower (replaceMarks separator p) = Text.lower (replaceMarks separator q)) :
    names p = names q := by
  refine intercalate_inj hx (names_ne_nil p) (names_ne_nil q) hp hq ?_
  rw [← fold_replaceMarks, ← fold_replaceMarks, ← Text.map_lower, ← Text.map_lower, h]

-- With no such character, names run together.
example : Text.lower (replaceMarks "%%" "/w/a%%b") = Text.lower (replaceMarks "%%" "/w/a/b") := by
  decide +kernel

/-- A page can go by the name of a layout only if its path ends in a mark. -/
theorem endsInMark_of_lower (hx : x ∈ Text.fold separator) (hp : ∀ name ∈ names p, x ∉ name)
    (h : Text.lower (replaceMarks separator p) =
      Text.lower (replaceMarks separator q) ++ suffix separator .layout) : EndsInMark p := by
  have hfold : Text.fold (replaceMarks separator p) =
      (Text.lower (replaceMarks separator q) ++ separator ++ "e").toList.map Text.plainSigma ++
        separator.toList.map Text.plainSigma := by
    rw [← Text.map_lower, h, ← List.map_append, ← String.toList_append, suffix, String.append_assoc,
      String.append_assoc, String.append_assoc]
  -- The separator at the end is not put in lower case, but what it is equal to is.
  have hsmall : Text.fold separator = separator.toList.map Text.plainSigma := by
    refine Text.flatMap_foldChar fun y hy => ?_
    have hmem : y ∈ Text.fold (replaceMarks separator p) := by
      rw [hfold]
      exact List.mem_append_right _ hy
    obtain ⟨c, -, hc⟩ := List.mem_flatMap.1 hmem
    exact Text.foldChar_of_mem hc
  rw [fold_replaceMarks, ← hsmall] at hfold
  obtain ⟨hinit, hlast⟩ := getLast_eq_nil_of_intercalate hx (names_ne_nil p) hp hfold
  exact endsInMark_of_names hinit hlast

-- A file name may end in a colon.
example : Text.lower (replaceMarks "%%" "/w/x:e:") =
    Text.lower (replaceMarks "%%" "/w/x") ++ suffix "%%" .layout := by
  decide +kernel

end Compiler
end Stencil
