/-
# Tidied texts

Blanks are reduced from left to right: what becomes of a text depends on what its line holds
before it, and that is whether there was anything but blanks, and which run of blanks comes last.
A text that begins and ends with other characters is tidied by itself, wherever it stands. A
single-quoted literal is such a text, and what it becomes is the literal of a tidied text again.

Key definitions: `Text.Line`, `Text.Line.through`, `Text.IsSolid`, `Text.neat`, `Text.loose`.
Key theorems: `Text.tidy_around`, `Text.tidy_tidy`, `Text.tidy_quote`, `Text.neat_eq_self_iff`.
-/
import Stencil.Proofs.Passes
import Stencil.Text.Quoted

namespace Stencil
namespace Text

/-- How far a line has been read: whether it has only blanks so far, and the run of blanks that
comes last, backwards. -/
structure Line where
  edge : Bool
  run : List Char

namespace Line

/-- At the start of a line. -/
def start : Line := ⟨true, []⟩

/-- Right after a character that is not blank. -/
def inner : Line := ⟨false, []⟩

/-- What the last run becomes before a character that is not blank. -/
def pending (l : Line) : List Char := if l.edge then [] else squeeze l.run

def next (l : Line) (c : Char) : Line :=
  if isBlank c then ⟨l.edge, c :: l.run⟩ else if isBreak c then start else inner

/-- The line after a text. -/
def after (l : Line) (cs : List Char) : Line := cs.foldl next l

/-- A text after what has been read of its line, without the blanks at its end. -/
def tidy (l : Line) (cs : List Char) : List Char := scan squeeze l.edge l.run cs

/-- A text between what has been read of its line and a character that is not blank. -/
def through (l : Line) (cs : List Char) : List Char := l.tidy cs ++ (l.after cs).pending

end Line

/-- Neither a blank nor the end of a line. -/
def isSolid (c : Char) : Bool := !isBlank c && !isBreak c

theorem isBlank_of_isSolid {c : Char} (h : isSolid c = true) : isBlank c = false := by
  simp only [isSolid, Bool.and_eq_true, Bool.not_eq_true'] at h
  exact h.1

theorem isBreak_of_isSolid {c : Char} (h : isSolid c = true) : isBreak c = false := by
  simp only [isSolid, Bool.and_eq_true, Bool.not_eq_true'] at h
  exact h.2

/-- A character is a blank, the end of a line, or something else. -/
theorem blank_or_break_or_solid (c : Char) :
    isBlank c = true ∨ (isBlank c = false ∧ isBreak c = true) ∨ isSolid c = true := by
  unfold isSolid
  cases isBlank c <;> cases isBreak c <;> simp

namespace Line

section
variable {c : Char} (l : Line) (cs : List Char)

theorem tidy_nil : l.tidy [] = [] := rfl

theorem tidy_blank (h : isBlank c = true) : l.tidy (c :: cs) = (l.next c).tidy cs := by
  simp [tidy, scan, next, h]

theorem tidy_break (hblank : isBlank c = false) (h : isBreak c = true) :
    l.tidy (c :: cs) = c :: start.tidy cs := by
  simp [tidy, scan, hblank, h, start]

theorem tidy_solid (h : isSolid c = true) : l.tidy (c :: cs) = l.pending ++ c :: inner.tidy cs := by
  simp [tidy, scan, isBlank_of_isSolid h, isBreak_of_isSolid h, pending, inner]

theorem next_blank (h : isBlank c = true) : l.next c = ⟨l.edge, c :: l.run⟩ := if_pos h

theorem next_break (hblank : isBlank c = false) (h : isBreak c = true) : l.next c = start := by
  simp [next, hblank, h]

theorem next_solid (h : isSolid c = true) : l.next c = inner := by
  simp [next, isBlank_of_isSolid h, isBreak_of_isSolid h]

theorem after_cons (c : Char) : l.after (c :: cs) = (l.next c).after cs := rfl

theorem after_append (ds : List Char) : l.after (cs ++ ds) = (l.after cs).after ds :=
  List.foldl_append

/-- A text is tidied from left to right. -/
theorem tidy_append (ds : List Char) : l.tidy (cs ++ ds) = l.tidy cs ++ (l.after cs).tidy ds := by
  induction cs generalizing l with
  | nil => rfl
  | cons c cs ih =>
    rw [List.cons_append, after_cons]
    rcases blank_or_break_or_solid c with h | ⟨hblank, h⟩ | h
    · rw [tidy_blank l _ h, tidy_blank l _ h, ih]
    · rw [tidy_break l _ hblank h, tidy_break l _ hblank h, next_break l hblank h, ih,
        List.cons_append]
    · rw [tidy_solid l _ h, tidy_solid l _ h, next_solid l h, ih, List.append_assoc,
        List.cons_append]

end

/-- The last run has nothing but blanks. -/
def Blank (l : Line) : Prop := ∀ c ∈ l.run, isBlank c = true

theorem blank_start : start.Blank := by
  intro c hc
  cases hc

theorem blank_inner : inner.Blank := by
  intro c hc
  cases hc

theorem Blank.next {l : Line} (hl : l.Blank) (c : Char) : (l.next c).Blank := by
  rcases blank_or_break_or_solid c with h | ⟨hblank, h⟩ | h
  · rw [next_blank l h]
    exact List.forall_mem_cons.2 ⟨h, hl⟩
  · rw [next_break l hblank h]
    exact blank_start
  · rw [next_solid l h]
    exact blank_inner

theorem Blank.after {l : Line} (hl : l.Blank) (cs : List Char) : (l.after cs).Blank := by
  induction cs generalizing l with
  | nil => exact hl
  | cons c cs ih => exact ih (hl.next c)

/-- There is nothing to write for the run, or a single blank. -/
theorem Blank.pending_cases {l : Line} (hl : l.Blank) :
    l.pending = [] ∨ ∃ b, isBlank b = true ∧ l.pending = [b] ∧ l.edge = false := by
  unfold pending
  cases hedge : l.edge with
  | true => exact .inl rfl
  | false =>
    rw [if_neg Bool.false_ne_true]
    unfold Blank at hl
    cases hrun : l.run with
    | nil => exact .inl rfl
    | cons b run =>
      cases run with
      | nil => exact .inr ⟨b, hl b (by rw [hrun]; exact List.mem_cons_self), rfl, rfl⟩
      | cons b' run => exact .inr ⟨' ', rfl, rfl, rfl⟩

end Line

/-! ### Texts that are tidied by themselves -/

/-- The text begins and ends with characters that are not blank. -/
def IsSolid (text : String) : Prop :=
  (∃ c cs, text.toList = c :: cs ∧ isSolid c = true) ∧ ∃ cs c, text.toList = cs ++ [c] ∧
    isSolid c = true

theorem tidy_eq (text : String) : (tidy text).toList = Line.start.tidy text.toList :=
  tidy_eq_scan text

/-- What has been read before is shown by what is written for the last run of blanks only. -/
theorem IsSolid.tidy_from {text : String} (h : IsSolid text) (l : Line) :
    l.tidy text.toList = l.pending ++ (tidy text).toList ∧ l.after text.toList = Line.inner := by
  obtain ⟨⟨c, cs, hfirst, hc⟩, ds, d, hlast, hd⟩ := h
  constructor
  · rw [tidy_eq, hfirst, Line.tidy_solid l cs hc, Line.tidy_solid _ cs hc]
    rfl
  · rw [hlast, Line.after_append]
    exact Line.next_solid _ hd

/-- A solid text inside of another one. -/
theorem tidy_around {text : String} (h : IsSolid text) (before after : String) :
    tidy (before ++ text ++ after) =
      String.ofList (Line.start.through before.toList) ++ tidy text ++
        String.ofList (Line.inner.tidy after.toList) := by
  obtain ⟨hfrom, hafter⟩ := h.tidy_from (Line.start.after before.toList)
  apply String.toList_inj.1
  rw [tidy_eq, String.toList_append, String.toList_append, Line.tidy_append, Line.tidy_append,
    Line.after_append, hfrom, hafter]
  simp only [String.toList_append, String.toList_ofList, Line.through, List.append_assoc]

theorem IsSolid.tidy {text : String} (h : IsSolid text) : IsSolid (tidy text) := by
  obtain ⟨⟨c, cs, hfirst, hc⟩, ds, d, hlast, hd⟩ := h
  constructor
  · refine ⟨c, Line.inner.tidy cs, ?_, hc⟩
    rw [tidy_eq, hfirst, Line.tidy_solid _ cs hc]
    rfl
  · refine ⟨Line.start.tidy ds ++ (Line.start.after ds).pending, d, ?_, hd⟩
    rw [tidy_eq, hlast, Line.tidy_append, Line.tidy_solid _ [] hd, List.append_assoc, Line.tidy_nil]

/-- A tidied text has nothing left to reduce. -/
theorem tidy_tidy (text : String) : tidy (tidy text) = tidy text := by
  -- what is written next comes after the same edge, and its own blanks are still to come
  have hagain : ∀ (cs : List Char) (l : Line), l.Blank →
      (⟨l.edge, []⟩ : Line).tidy (l.tidy cs) = l.tidy cs := by
    intro cs
    induction cs with
    | nil => exact fun _ _ => rfl
    | cons c cs ih =>
      intro l hl
      rcases blank_or_break_or_solid c with h | ⟨hblank, h⟩ | h
      · have hnext := ih (l.next c) (hl.next c)
        rw [Line.next_blank l h] at hnext
        rw [Line.tidy_blank l cs h, Line.next_blank l h]
        exact hnext
      · rw [Line.tidy_break l cs hblank h, Line.tidy_break _ _ hblank h]
        exact congrArg (c :: ·) (ih Line.start Line.blank_start)
      · have hrest : Line.inner.tidy (Line.inner.tidy cs) = Line.inner.tidy cs :=
          ih Line.inner Line.blank_inner
        rw [Line.tidy_solid l cs h]
        rcases hl.pending_cases with hnone | ⟨b, hb, hpending, hedge⟩
        · rw [hnone, List.nil_append, Line.tidy_solid _ _ h, hrest]
          unfold Line.pending
          cases l.edge <;> rfl
        · rw [hpending, List.singleton_append, Line.tidy_blank _ _ hb, Line.next_blank _ hb,
            Line.tidy_solid _ _ h, hrest, hedge]
          rfl
  apply String.toList_inj.1
  rw [tidy_eq, tidy_eq]
  exact hagain text.toList Line.start Line.blank_start

/-! ### Literals -/

theorem quoteChar_of_not_solid {c : Char} (h : isSolid c = false) : quoteChar c = [c] := by
  have hother : ¬ (c = '\\' ∨ c = apostrophe) := by
    rintro (rfl | rfl) <;> exact absurd h (by decide)
  exact if_neg hother

theorem isSolid_of_isBlank {c : Char} (h : isBlank c = true) : isSolid c = false := by
  simp [isSolid, h]

theorem Line.Blank.quote_pending {l : Line} (hl : l.Blank) :
    l.pending.flatMap quoteChar = l.pending := by
  rcases hl.pending_cases with hnone | ⟨b, hb, hone, -⟩
  · rw [hnone]
    rfl
  · rw [hone, List.flatMap_singleton, quoteChar_of_not_solid (isSolid_of_isBlank hb)]

/-- Escaping changes no blanks and adds none. -/
theorem Line.tidy_quoteChars (l : Line) (hl : l.Blank) (cs : List Char) :
    l.tidy (cs.flatMap quoteChar) = (l.tidy cs).flatMap quoteChar ∧
      l.after (cs.flatMap quoteChar) = l.after cs := by
  induction cs generalizing l with
  | nil => exact ⟨rfl, rfl⟩
  | cons c cs ih =>
    obtain ⟨htidy, hafter⟩ := ih (l.next c) (hl.next c)
    rw [List.flatMap_cons, after_cons, ← hafter]
    rcases blank_or_break_or_solid c with h | ⟨hblank, h⟩ | h
    · rw [quoteChar_of_not_solid (isSolid_of_isBlank h), List.singleton_append, tidy_blank l _ h,
        tidy_blank l _ h]
      exact ⟨htidy, rfl⟩
    · have hself : quoteChar c = [c] := quoteChar_of_not_solid (by simp [isSolid, h])
      rw [next_break l hblank h] at htidy ⊢
      rw [hself, List.singleton_append, tidy_break l _ hblank h, tidy_break l _ hblank h, htidy,
        List.flatMap_cons, hself, List.singleton_append]
      exact ⟨rfl, by rw [after_cons, next_break l hblank h]⟩
    · rw [next_solid l h] at htidy ⊢
      rw [tidy_solid l cs h, List.flatMap_append, List.flatMap_cons, hl.quote_pending, ← htidy]
      by_cases hescaped : c = '\\' ∨ c = apostrophe
      · have hslash : isSolid '\\' = true := by decide
        have hquoted : quoteChar c = ['\\', c] := if_pos hescaped
        rw [hquoted, List.cons_append, List.singleton_append, tidy_solid l _ hslash,
          tidy_solid _ _ h, after_cons, after_cons, next_solid l hslash, next_solid _ h]
        exact ⟨rfl, rfl⟩
      · have hquoted : quoteChar c = [c] := if_neg hescaped
        rw [hquoted, List.singleton_append, tidy_solid l _ h, after_cons, next_solid l h]
        exact ⟨rfl, rfl⟩

/-- A text as it is tidied between characters that are not blank. -/
def neat (text : String) : String := String.ofList (Line.inner.through text.toList)

theorem quote_solid (text : String) : IsSolid (quote text) := by
  have hchars : (quote text).toList = apostrophe :: text.toList.flatMap quoteChar ++ [apostrophe] :=
    String.toList_ofList
  have hsolid : isSolid apostrophe = true := by decide
  exact ⟨⟨apostrophe, _, hchars, hsolid⟩, _, apostrophe, hchars, hsolid⟩

/-- A tidied literal is the literal of a tidied text. -/
theorem tidy_quote (text : String) : tidy (quote text) = quote (neat text) := by
  obtain ⟨htidy, hafter⟩ := Line.tidy_quoteChars Line.inner Line.blank_inner text.toList
  have hpending := (Line.blank_inner.after text.toList).quote_pending
  have hsolid : isSolid apostrophe = true := by decide
  apply String.toList_inj.1
  rw [tidy_eq, quote, quote, String.toList_ofList, String.toList_ofList, neat, String.toList_ofList,
    quoteChars, quoteChars, List.cons_append, Line.tidy_solid _ _ hsolid, Line.tidy_append, htidy,
    hafter, Line.tidy_solid _ _ hsolid, Line.through, List.flatMap_append, hpending, Line.tidy_nil]
  simp [Line.pending, Line.start]

/-! ### Texts with nothing to reduce -/

/-- One of two neighbours is lost or replaced: two blanks, or a blank beside the end of a line. -/
def loose (c d : Char) : Bool := isBlank c && (isBlank d || isBreak d) || isBreak c && isBlank d

/-- No two neighbours are loose. -/
def Tight (cs : List Char) : Prop := ∀ c d, [c, d] <:+: cs → loose c d = false

theorem tight_nil : Tight [] := by
  intro c d h
  have hlength := h.length_le
  simp at hlength

theorem tight_cons {c : Char} {cs : List Char} :
    Tight (c :: cs) ↔ (∀ d, cs.head? = some d → loose c d = false) ∧ Tight cs := by
  have hstart : ∀ x y, [x, y] <+: c :: cs ↔ x = c ∧ cs.head? = some y := by
    intro x y
    cases cs <;> simp [List.cons_prefix_cons, eq_comm]
  constructor
  · intro h
    refine ⟨fun d hd => h c d ?_, fun x y hxy => h x y (hxy.trans (List.suffix_cons c cs).isInfix)⟩
    exact ((hstart c d).2 ⟨rfl, hd⟩).isInfix
  · rintro ⟨hfirst, hrest⟩ x y hxy
    rcases List.infix_cons_iff.1 hxy with hpre | hinfix
    · obtain ⟨rfl, hy⟩ := (hstart x y).1 hpre
      exact hfirst y hy
    · exact hrest x y hinfix

namespace Line

section
variable {c : Char} (l : Line) (cs : List Char)

theorem through_nil : l.through [] = l.pending := rfl

theorem through_blank (h : isBlank c = true) : l.through (c :: cs) = (l.next c).through cs := by
  rw [through, tidy_blank l cs h, after_cons, through]

theorem through_break (hblank : isBlank c = false) (h : isBreak c = true) :
    l.through (c :: cs) = c :: start.through cs := by
  rw [through, tidy_break l cs hblank h, after_cons, next_break l hblank h, through,
    List.cons_append]

theorem through_solid (h : isSolid c = true) :
    l.through (c :: cs) = l.pending ++ c :: inner.through cs := by
  rw [through, tidy_solid l cs h, after_cons, next_solid l h, through, List.append_assoc,
    List.cons_append]

theorem length_pending_le : l.pending.length ≤ 1 := by
  unfold pending squeeze
  split
  · exact Nat.zero_le 1
  · split <;> simp

/-- Nothing is added. -/
theorem length_through_le : (l.through cs).length ≤ l.pending.length + cs.length := by
  induction cs generalizing l with
  | nil => exact Nat.le_refl _
  | cons c cs ih =>
    rw [List.length_cons]
    rcases blank_or_break_or_solid c with h | ⟨hblank, h⟩ | h
    · have hrest := ih (l.next c)
      have hone := (l.next c).length_pending_le
      rw [through_blank l cs h]
      omega
    · have hrest := ih start
      have hzero : start.pending.length = 0 := rfl
      rw [through_break l cs hblank h, List.length_cons]
      omega
    · have hrest := ih inner
      have hzero : inner.pending.length = 0 := rfl
      rw [through_solid l cs h, List.length_append, List.length_cons]
      omega

/-- The character can be read with nothing lost. -/
def fits (l : Line) (c : Char) : Bool :=
  (!isBlank c || !l.edge && l.run.isEmpty) && (!isBreak c || l.edge || l.run.isEmpty)

theorem fits_solid (h : isSolid c = true) : l.fits c = true := by
  simp [fits, isBlank_of_isSolid h, isBreak_of_isSolid h]

/-- A break fits exactly if no run is lost before it. -/
theorem fits_break (hblank : isBlank c = false) (h : isBreak c = true) :
    l.fits c = true ↔ l.pending.length = 0 := by
  unfold fits pending squeeze
  cases l.edge <;> cases hrun : l.run with
  | nil => simp [hblank, h]
  | cons b run => cases run <;> simp [hblank, h]

/-- A blank fits exactly if it is the first after something else. -/
theorem fits_blank (h : isBlank c = true) : l.fits c = true ↔ l.edge = false ∧ l.run = [] := by
  have hbreak : isBreak c = false := by
    simp only [isBlank, Bool.or_eq_true, beq_iff_eq] at h
    rcases h with rfl | rfl <;> decide
  simp [fits, h, hbreak]

/-- A blank that does not fit makes no longer run. -/
theorem length_pending_next (h : isBlank c = true) (hfits : l.fits c ≠ true) :
    (l.next c).pending.length ≤ l.pending.length := by
  rw [Ne, fits_blank l h] at hfits
  rw [next_blank l h]
  unfold pending squeeze
  cases hedge : l.edge with
  | true => simp
  | false =>
    cases hrun : l.run with
    | nil => exact absurd ⟨hedge, hrun⟩ hfits
    | cons b run => cases run <;> simp

/-- After a character that fits, the next one fits exactly if the two are not loose. -/
theorem fits_next {l : Line} (h : l.fits c = true) (d : Char) :
    (l.next c).fits d = true ↔ loose c d = false := by
  rcases blank_or_break_or_solid c with hc | ⟨hblank, hc⟩ | hc
  · obtain ⟨hedge, hrun⟩ := (fits_blank l hc).1 h
    rw [next_blank l hc, hedge, hrun]
    simp [fits, loose, hc]
    grind
  · rw [next_break l hblank hc]
    simp [fits, start, loose, hc, hblank]
  · rw [next_solid l hc]
    simp [fits, inner, loose, isBlank_of_isSolid hc, isBreak_of_isSolid hc]

end

/-- Exactly the texts without loose neighbours are kept as they are. -/
theorem through_eq_iff (cs : List Char) (l : Line) :
    l.through cs = l.pending ++ cs ↔ (∀ c, cs.head? = some c → l.fits c = true) ∧ Tight cs := by
  induction cs generalizing l with
  | nil => simp [through_nil, tight_nil]
  | cons c cs ih =>
    have hhead : (∀ d, (c :: cs).head? = some d → l.fits d = true) ↔ l.fits c = true := by simp
    rw [hhead, tight_cons]
    by_cases hfits : l.fits c = true
    · -- the rest is read in the line that the character leaves
      have hnext : (∀ d, cs.head? = some d → loose c d = false) ↔
          ∀ d, cs.head? = some d → (l.next c).fits d = true :=
        forall₂_congr fun d _ => (fits_next hfits d).symm
      rw [and_iff_right hfits, hnext, ← ih (l.next c)]
      rcases blank_or_break_or_solid c with hc | ⟨hblank, hc⟩ | hc
      · obtain ⟨hedge, hrun⟩ := (fits_blank l hc).1 hfits
        rw [through_blank l cs hc, next_blank l hc]
        simp [pending, squeeze, hedge, hrun]
      · have hnone := List.length_eq_zero_iff.1 ((fits_break l hblank hc).1 hfits)
        rw [through_break l cs hblank hc, next_break l hblank hc, hnone]
        simp [pending, start]
      · rw [through_solid l cs hc, next_solid l hc]
        simp [pending, inner, squeeze]
    · -- a run is lost, so there are not as many characters
      refine iff_of_false (fun heq => ?_) fun h => hfits h.1
      have hlength := congrArg List.length heq
      rw [List.length_append, List.length_cons] at hlength
      rcases blank_or_break_or_solid c with hc | ⟨hblank, hc⟩ | hc
      · have hrest := (l.next c).length_through_le cs
        have hrun := length_pending_next l hc hfits
        rw [through_blank l cs hc] at hlength
        omega
      · have hrest := start.length_through_le cs
        have hzero : start.pending.length = 0 := rfl
        have hsome := mt (fits_break l hblank hc).2 hfits
        rw [through_break l cs hblank hc, List.length_cons] at hlength
        omega
      · exact hfits (fits_solid l hc)

end Line

/-- A text keeps its form in a literal exactly if it has no two blanks in a row and no blank beside
the end of a line. -/
theorem neat_eq_self_iff (text : String) : neat text = text ↔ Tight text.toList := by
  have hinner : ∀ c, text.toList.head? = some c → Line.inner.fits c = true := by
    intro c _
    simp [Line.fits, Line.inner]
  rw [← String.toList_inj, neat, String.toList_ofList]
  exact (Line.through_eq_iff text.toList Line.inner).trans (and_iff_right hinner)

end Text
end Stencil
