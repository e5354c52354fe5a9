/-
# Tidied texts, line by line

A line ends at a carriage return and a line feed together, or at either of them alone. Tidying a
text is tidying each of its lines: the blanks at both ends go, and of every run of blanks inside
the line that is longer than one a single space is left. The scan of the whole text knows nothing
of lines, only of the characters that end them.

The lines of the tidied text are among the tidied lines, but there can be fewer of them. A line of
blanks between a carriage return and a line feed is lost, since the two then end one line
together. What is lost is an empty line, so every line that is left is a tidied one.

Key definitions: `Text.Lines`, `Text.lines`, `Text.strip`, `Text.runs`, `Text.tidyLine`.
Key theorems: `Text.text_lines`, `Text.tidy_body`, `Text.Lines.tidy_text`,
`Text.Lines.bodies_lines_text`, `Text.tidy_by_lines`.
-/
import Mathlib.Data.List.DropRight
import Mathlib.Data.List.SplitBy
import Stencil.Proofs.Tidied

namespace Stencil
namespace Text

/-! ### Lines -/

/-- How a line ends when another one follows. -/
inductive Ending where
  | crlf
  | cr
  | lf

/-- The characters that end a line. -/
def Ending.chars : Ending → List Char
  | .crlf => ['\r', '\n']
  | .cr => ['\r']
  | .lf => ['\n']

/-- A text as its lines: the last one, or one that ends and those after it. -/
inductive Lines where
  | last (body : List Char)
  | ended (body : List Char) (ending : Ending) (rest : Lines)

namespace Lines

/-- The text that the lines make up. -/
def text : Lines → List Char
  | last body => body
  | ended body ending rest => body ++ (ending.chars ++ rest.text)

/-- The lines without what ends them. -/
def bodies : Lines → List (List Char)
  | last body => [body]
  | ended body _ rest => body :: rest.bodies

/-- Each line changed by itself. -/
def map (f : List Char → List Char) : Lines → Lines
  | last body => last (f body)
  | ended body ending rest => ended (f body) ending (rest.map f)

/-- The lines with `cs` before the first one. -/
def after (cs : List Char) : Lines → Lines
  | last body => last (cs ++ body)
  | ended body ending rest => ended (cs ++ body) ending rest

/-- No line has a character in it that ends lines. -/
def Unbroken (ls : Lines) : Prop := ∀ body ∈ ls.bodies, ∀ c ∈ body, isBreak c = false

end Lines

/-- The lines of a text. -/
def lines : List Char → Lines
  | [] => .last []
  | '\r' :: '\n' :: cs => .ended [] .crlf (lines cs)
  | c :: cs =>
    if c = '\r' then .ended [] .cr (lines cs)
    else if c = '\n' then .ended [] .lf (lines cs)
    else (lines cs).after [c]

/-- A line without the blanks at its ends. -/
def strip (line : List Char) : List Char := (line.dropWhile isBlank).rdropWhile isBlank

/-- A line cut into its runs of blanks and the single characters between them. -/
def runs (line : List Char) : List (List Char) := line.splitBy fun c d => isBlank c && isBlank d

/-- A space for a run of several blanks. -/
def shrink (run : List Char) : List Char := if 2 ≤ run.length then [' '] else run

/-- A line without blanks at its ends, and with a space for every run of several blanks. -/
def tidyLine (line : List Char) : List Char := (runs (strip line)).flatMap shrink

example : tidyLine "\t a \t\tb\tc  ".toList = "a b\tc".toList := by decide

namespace Lines

theorem text_after (cs : List Char) (ls : Lines) : (ls.after cs).text = cs ++ ls.text := by
  cases ls <;> simp [after, text]

theorem after_nil (ls : Lines) : ls.after [] = ls := by
  cases ls <;> rfl

theorem after_after (cs ds : List Char) (ls : Lines) :
    (ls.after ds).after cs = ls.after (cs ++ ds) := by
  cases ls <;> simp [after]

theorem bodies_map (f : List Char → List Char) (ls : Lines) :
    (ls.map f).bodies = ls.bodies.map f := by
  induction ls with
  | last body => rfl
  | ended body ending rest ih => simp [map, bodies, ih]

theorem Unbroken.of_ended {body : List Char} {ending : Ending} {rest : Lines}
    (h : (ended body ending rest).Unbroken) :
    (∀ c ∈ body, isBreak c = false) ∧ rest.Unbroken := List.forall_mem_cons.1 h

theorem Unbroken.ended {body : List Char} {rest : Lines} (hbody : ∀ c ∈ body, isBreak c = false)
    (hrest : rest.Unbroken) (ending : Ending) : (Lines.ended body ending rest).Unbroken :=
  List.forall_mem_cons.2 ⟨hbody, hrest⟩

theorem Unbroken.after {ls : Lines} (h : ls.Unbroken) {cs : List Char}
    (hcs : ∀ c ∈ cs, isBreak c = false) :
    (ls.after cs).Unbroken := by
  cases ls with
  | last body =>
    have hbody : ∀ c ∈ body, isBreak c = false := h body List.mem_cons_self
    intro b hb c hc
    rw [List.mem_singleton.1 hb, List.mem_append] at hc
    exact hc.elim (hcs c) (hbody c)
  | ended body ending rest =>
    obtain ⟨hbody, hrest⟩ := Unbroken.of_ended h
    refine Unbroken.ended (fun c hc => ?_) hrest ending
    exact (List.mem_append.1 hc).elim (hcs c) (hbody c)

end Lines

/-- A character that is not the end of a line is neither of the two. -/
theorem isBreak_eq_false_iff (c : Char) : isBreak c = false ↔ c ≠ '\r' ∧ c ≠ '\n' := by
  simp [isBreak, and_comm]

theorem isBreak_of_isBlank {c : Char} (h : isBlank c = true) : isBreak c = false := by
  rw [isBreak_eq_false_iff]
  constructor <;> (rintro rfl; cases h)

/-- The lines of a text make up the text. -/
theorem text_lines (cs : List Char) : (lines cs).text = cs := by
  fun_induction lines cs with
  | case1 => rfl
  | case2 cs ih => simp [Lines.text, Ending.chars, ih]
  | case3 cs _ ih => simp [Lines.text, Ending.chars, ih]
  | case4 cs _ _ ih => simp [Lines.text, Ending.chars, ih]
  | case5 c cs _ _ _ ih => rw [Lines.text_after, ih, List.singleton_append]

theorem unbroken_lines (cs : List Char) : (lines cs).Unbroken := by
  have hempty : ∀ c ∈ ([] : List Char), isBreak c = false := by simp
  fun_induction lines cs with
  | case1 => simp [Lines.Unbroken, Lines.bodies]
  | case2 cs ih => exact .ended hempty ih _
  | case3 cs _ ih => exact .ended hempty ih _
  | case4 cs _ _ ih => exact .ended hempty ih _
  | case5 c cs _ hcr hlf ih =>
    refine ih.after fun d hd => ?_
    rw [List.mem_singleton.1 hd]
    exact (isBreak_eq_false_iff c).2 ⟨hcr, hlf⟩

/-- What stands before the first end of a line belongs to the first line. -/
theorem lines_append {body : List Char} (h : ∀ c ∈ body, isBreak c = false) (cs : List Char) :
    lines (body ++ cs) = (lines cs).after body := by
  induction body with
  | nil => exact ((lines cs).after_nil).symm
  | cons c body ih =>
    rw [List.forall_mem_cons] at h
    obtain ⟨hcr, hlf⟩ := (isBreak_eq_false_iff c).1 h.1
    have hfirst : lines (c :: (body ++ cs)) = (lines (body ++ cs)).after [c] := by
      rw [lines, if_neg hcr, if_neg hlf]
      rintro ds rfl
      exact absurd rfl hcr
    rw [List.cons_append, hfirst, ih h.2, Lines.after_after, List.singleton_append]

/-! ### One line -/

/-- Blanks alone are not written. -/
theorem Line.tidy_blanks (l : Line) {cs : List Char} (h : ∀ c ∈ cs, isBlank c = true) :
    l.tidy cs = [] := by
  induction cs generalizing l with
  | nil => rfl
  | cons c cs ih =>
    rw [List.forall_mem_cons] at h
    rw [l.tidy_blank cs h.1]
    exact ih _ h.2

theorem Line.after_blanks (l : Line) {cs : List Char} (h : ∀ c ∈ cs, isBlank c = true) :
    (l.after cs).edge = l.edge := by
  induction cs generalizing l with
  | nil => rfl
  | cons c cs ih =>
    rw [List.forall_mem_cons] at h
    rw [l.after_cons, ih _ h.2, l.next_blank h.1]

theorem runs_blanks {run : List Char} (h : ∀ c ∈ run, isBlank c = true) :
    (runs run).flatMap shrink = shrink run := by
  by_cases hrun : run = []
  · subst hrun
    rfl
  · have hchain : run.IsChain fun c d => (isBlank c && isBlank d) = true := by
      refine List.Pairwise.isChain (List.pairwise_of_forall_mem_list fun c hc d hd => ?_)
      rw [h c hc, h d hd]
      rfl
    rw [runs, List.splitBy_of_isChain hrun hchain, List.flatMap_singleton]

/-- The run of blanks before a character is cut off, and so is the character. -/
theorem runs_solid {c : Char} (h : isBlank c = false) (run cs : List Char) :
    runs (run ++ c :: cs) = runs run ++ [c] :: runs cs := by
  have hbefore : runs (run ++ c :: cs) = runs run ++ runs (c :: cs) :=
    List.splitBy_append_cons cs fun d _ => by rw [h, Bool.and_false]
  have hafter : runs ([c] ++ cs) = runs [c] ++ runs cs := by
    refine List.splitBy_append fun d hd e _ => ?_
    rw [List.getLast?_singleton, Option.mem_some_iff] at hd
    rw [← hd, h, Bool.false_and]
  rw [hbefore, ← List.singleton_append, hafter]
  rfl

theorem squeeze_eq_shrink (run : List Char) : squeeze run = shrink run.reverse := by
  cases run with
  | nil => rfl
  | cons c run =>
    cases run with
    | nil => rfl
    | cons d run =>
      rw [shrink, if_pos (by simp)]
      rfl

/-- Past the first character that is not blank, a line that ends with one is written run by run. -/
theorem Line.tidy_runs {l : Line} (hedge : l.edge = false) (hl : l.Blank) {cs : List Char}
    (hcs : ∀ c ∈ cs, isBreak c = false)
    (hlast : ∀ c ∈ (l.run.reverse ++ cs).getLast?, isBlank c = false) :
    l.tidy cs = (runs (l.run.reverse ++ cs)).flatMap shrink := by
  induction cs generalizing l with
  | nil =>
    -- a run at the end would end the line with a blank
    have hrun : l.run = [] := by
      cases hr : l.run with
      | nil => rfl
      | cons b run =>
        have hblank : isBlank b = true := hl b (by rw [hr]; exact List.mem_cons_self)
        rw [hr, List.append_nil, List.reverse_cons] at hlast
        have hsolid := hlast b (by rw [List.getLast?_append_cons]; rfl)
        rw [hblank] at hsolid
        cases hsolid
    rw [hrun]
    rfl
  | cons c cs ih =>
    rw [List.forall_mem_cons] at hcs
    cases hc : isBlank c with
    | true =>
      have hnext := l.next_blank hc
      have hruns : (l.next c).run.reverse ++ cs = l.run.reverse ++ c :: cs := by simp [hnext]
      rw [l.tidy_blank cs hc, ih (by rw [hnext]; exact hedge) (hl.next c) hcs.2
        (by rw [hruns]; exact hlast), hruns]
    | false =>
      have hsolid : isSolid c = true := by simp [isSolid, hc, hcs.1]
      have hpending : l.pending = shrink l.run.reverse := by
        rw [Line.pending, hedge, ← squeeze_eq_shrink]
        rfl
      have hrun : ∀ d ∈ l.run.reverse, isBlank d = true := fun d hd => hl d (List.mem_reverse.1 hd)
      have hrest : ∀ d ∈ (Line.inner.run.reverse ++ cs).getLast?, isBlank d = false := by
        intro d hd
        refine hlast d ?_
        change d ∈ cs.getLast? at hd
        rw [List.getLast?_append_cons, List.getLast?_cons, hd]
        rfl
      rw [l.tidy_solid cs hsolid, runs_solid hc, List.flatMap_append, List.flatMap_cons,
        runs_blanks hrun, hpending, ih rfl Line.blank_inner hcs.2 hrest]
      rfl

/-- A line is what is left of it between blanks. -/
theorem eq_strip (line : List Char) :
    ∃ lead trail, (∀ c ∈ lead, isBlank c = true) ∧ (∀ c ∈ trail, isBlank c = true) ∧
    line = lead ++ (strip line ++ trail) := by
  refine ⟨line.takeWhile isBlank, (line.dropWhile isBlank).rtakeWhile isBlank,
    fun c => List.mem_takeWhile_imp,
    fun c => List.mem_rtakeWhile_imp, ?_⟩
  rw [strip, List.rdropWhile_append_rtakeWhile, List.takeWhile_append_dropWhile]

theorem head_strip (line : List Char) : ∀ c ∈ (strip line).head?, isBlank c = false := by
  intro c hc
  have hhead : (line.dropWhile isBlank).head? = some c := by
    obtain ⟨trail, htrail⟩ : strip line <+: line.dropWhile isBlank :=
      List.rdropWhile_prefix isBlank _
    rw [← htrail, List.head?_append, hc]
    rfl
  have hnot := List.head?_dropWhile_not isBlank line
  rw [hhead] at hnot
  exact hnot

theorem last_strip (line : List Char) : ∀ c ∈ (strip line).getLast?, isBlank c = false := by
  intro c hc
  have hne : strip line ≠ [] := by
    rintro hnil
    rw [hnil] at hc
    cases hc
  have hnot : ¬ isBlank ((strip line).getLast hne) = true := List.rdropWhile_last_not isBlank _ hne
  rw [Option.mem_def, List.getLast?_eq_some_getLast hne] at hc
  rw [← Option.some.inj hc]
  simpa using hnot

/-- Between blanks, a line that neither begins nor ends with one is written with its runs shrunk. -/
theorem Line.tidy_between {lead bare trail : List Char} (hlead : ∀ c ∈ lead, isBlank c = true)
    (htrail : ∀ c ∈ trail, isBlank c = true) (hbreaks : ∀ c ∈ bare, isBreak c = false)
    (hhead : ∀ c ∈ bare.head?, isBlank c = false) (hlast : ∀ c ∈ bare.getLast?, isBlank c = false) :
    Line.start.tidy (lead ++ (bare ++ trail)) = (runs bare).flatMap shrink := by
  rw [Line.tidy_append, Line.tidy_append, Line.tidy_blanks _ hlead, Line.tidy_blanks _ htrail,
    List.nil_append, List.append_nil]
  cases bare with
  | nil => rfl
  | cons c cs =>
    -- the first character is neither blank nor the end of a line, and so the indentation is not
    -- written
    rw [List.forall_mem_cons] at hbreaks
    have hblank : isBlank c = false := hhead c rfl
    have hsolid : isSolid c = true := by simp [isSolid, hblank, hbreaks.1]
    have hpending : (Line.start.after lead).pending = [] := by
      rw [Line.pending, Line.start.after_blanks hlead]
      rfl
    have hrest : ∀ d ∈ (Line.inner.run.reverse ++ cs).getLast?, isBlank d = false := by
      intro d hd
      change d ∈ cs.getLast? at hd
      refine hlast d ?_
      rw [List.getLast?_cons, hd]
      rfl
    rw [Line.tidy_solid _ cs hsolid, hpending, Line.tidy_runs rfl Line.blank_inner hbreaks.2 hrest,
      List.nil_append]
    exact (congrArg (List.flatMap shrink) (runs_solid hblank [] cs)).symm

/-- A line by itself is written without blanks at its ends and with its runs shrunk. -/
theorem tidy_body {body : List Char} (h : ∀ c ∈ body, isBreak c = false) :
    Line.start.tidy body = tidyLine body := by
  obtain ⟨lead, trail, hlead, htrail, hbody⟩ := eq_strip body
  have hbreaks : ∀ c ∈ strip body, isBreak c = false := by
    intro c hc
    refine h c ?_
    rw [hbody]
    exact List.mem_append_right _ (List.mem_append_left _ hc)
  calc Line.start.tidy body
    _ = Line.start.tidy (lead ++ (strip body ++ trail)) := congrArg _ hbody
    _ = tidyLine body := Line.tidy_between hlead htrail hbreaks (head_strip body) (last_strip body)

/-! ### What is written -/

section
variable {l : Line} (cs : List Char)

/-- Everything but blanks is kept, in order. -/
theorem Line.Blank.filter_tidy (hl : l.Blank) :
    (l.tidy cs).filter (fun c => !isBlank c) = cs.filter fun c => !isBlank c := by
  induction cs generalizing l with
  | nil => rfl
  | cons c cs ih =>
    rcases blank_or_break_or_solid c with h | ⟨hblank, h⟩ | h
    · rw [l.tidy_blank cs h, ih (hl.next c), List.filter_cons_of_neg (by simp [h])]
    · rw [l.tidy_break cs hblank h, List.filter_cons_of_pos (by simp [hblank]),
        List.filter_cons_of_pos (by simp [hblank]), ih Line.blank_start]
    · have hblank := isBlank_of_isSolid h
      have hpending : l.pending.filter (fun c => !isBlank c) = [] := by
        rcases hl.pending_cases with hnone | ⟨b, hb, hsome, -⟩
        · rw [hnone]
          rfl
        · rw [hsome, List.filter_cons_of_neg (by simp [hb])]
          rfl
      rw [l.tidy_solid cs h, List.filter_append, hpending, List.nil_append,
        List.filter_cons_of_pos (by simp [hblank]), List.filter_cons_of_pos (by simp [hblank]),
        ih Line.blank_inner]

/-- A line does not begin with a blank. -/
theorem Line.head_tidy (hedge : l.edge = true) : ∀ c ∈ (l.tidy cs).head?, isBlank c = false := by
  induction cs generalizing l with
  | nil => simp [Line.tidy_nil]
  | cons c cs ih =>
    rcases blank_or_break_or_solid c with h | ⟨hblank, h⟩ | h
    · rw [l.tidy_blank cs h]
      exact ih (by rw [l.next_blank h]; exact hedge)
    · rw [l.tidy_break cs hblank h]
      simpa using hblank
    · have hpending : l.pending = [] := by rw [Line.pending, if_pos hedge]
      rw [l.tidy_solid cs h, hpending]
      simpa using isBlank_of_isSolid h

/-- A text does not end with a blank. -/
theorem Line.last_tidy : ∀ c ∈ (l.tidy cs).getLast?, isBlank c = false := by
  -- whatever is written last, the character before it is not blank either
  have hcons : ∀ {c : Char} {ds : List Char}, isBlank c = false →
      (∀ d ∈ ds.getLast?, isBlank d = false) →
      ∀ d ∈ (c :: ds).getLast?, isBlank d = false := by
    intro c ds hc hds d hd
    rw [List.getLast?_cons, Option.mem_some_iff] at hd
    cases hlast : ds.getLast? with
    | none => rw [← hd, hlast]; exact hc
    | some e => rw [← hd, hlast]; exact hds e hlast
  induction cs generalizing l with
  | nil => simp [Line.tidy_nil]
  | cons c cs ih =>
    rcases blank_or_break_or_solid c with h | ⟨hblank, h⟩ | h
    · rw [l.tidy_blank cs h]
      exact ih
    · rw [l.tidy_break cs hblank h]
      exact hcons hblank ih
    · rw [l.tidy_solid cs h, List.getLast?_append_cons]
      exact hcons (isBlank_of_isSolid h) ih

/-- No two blanks are side by side. -/
theorem Line.Blank.isChain_tidy (hl : l.Blank) :
    (l.tidy cs).IsChain fun c d => ¬ (isBlank c = true ∧ isBlank d = true) := by
  induction cs generalizing l with
  | nil => exact List.isChain_nil
  | cons c cs ih =>
    rcases blank_or_break_or_solid c with h | ⟨hblank, h⟩ | h
    · rw [l.tidy_blank cs h]
      exact ih (hl.next c)
    · rw [l.tidy_break cs hblank h]
      exact List.isChain_cons.2 ⟨fun d _ => by simp [hblank], ih Line.blank_start⟩
    · have hrest : (c :: Line.inner.tidy cs).IsChain fun c d =>
          ¬ (isBlank c = true ∧ isBlank d = true) :=
        List.isChain_cons.2 ⟨fun d _ => by simp [isBlank_of_isSolid h], ih Line.blank_inner⟩
      rw [l.tidy_solid cs h]
      rcases hl.pending_cases with hnone | ⟨b, -, hsome, -⟩
      · rw [hnone]
        exact hrest
      · rw [hsome, List.singleton_append]
        refine List.isChain_cons.2 ⟨fun d hd => ?_, hrest⟩
        rw [List.head?_cons, Option.mem_some_iff] at hd
        simp [← hd, isBlank_of_isSolid h]

end

/-! ### All lines -/

theorem Line.tidy_ending (l : Line) (ending : Ending) (cs : List Char) :
    l.tidy (ending.chars ++ cs) = ending.chars ++ Line.start.tidy cs := by
  have hcr := fun (l : Line) cs => l.tidy_break (c := '\r') cs rfl rfl
  have hlf := fun (l : Line) cs => l.tidy_break (c := '\n') cs rfl rfl
  cases ending with
  | crlf => exact (hcr l ('\n' :: cs)).trans (congrArg ('\r' :: ·) (hlf _ cs))
  | cr => exact hcr l cs
  | lf => exact hlf l cs

namespace Lines

/-- Every line is tidied by itself. -/
theorem tidy_text {ls : Lines} (h : ls.Unbroken) :
    Line.start.tidy ls.text = (ls.map tidyLine).text := by
  induction ls with
  | last body => exact tidy_body (h body List.mem_cons_self)
  | ended body ending rest ih =>
    obtain ⟨hbody, hrest⟩ := Unbroken.of_ended h
    rw [text, Line.tidy_append, Line.tidy_ending, tidy_body hbody, ih hrest]
    rfl

theorem Unbroken.map_tidyLine {ls : Lines} (h : ls.Unbroken) : (ls.map tidyLine).Unbroken := by
  intro b hb c hc
  rw [bodies_map] at hb
  obtain ⟨body, hbody, rfl⟩ := List.mem_map.1 hb
  rw [← tidy_body (h body hbody)] at hc
  cases hblank : isBlank c with
  | true => exact isBreak_of_isBlank hblank
  | false =>
    have hkept : c ∈ (Line.start.tidy body).filter fun c => !isBlank c :=
      List.mem_filter.2 ⟨hc, by simp [hblank]⟩
    rw [Line.blank_start.filter_tidy] at hkept
    exact h body hbody c (List.mem_filter.1 hkept).1

/-- What ends a line may be joined by a line feed that follows, and takes the empty line between
them with it. No other line is lost. -/
theorem bodies_lines_text {ls : Lines} (h : ls.Unbroken) :
    ∀ b ∈ (lines ls.text).bodies, b ∈ ls.bodies := by
  induction ls with
  | last body =>
    have hbody : ∀ c ∈ body, isBreak c = false := h body List.mem_cons_self
    have hlines := lines_append hbody []
    rw [List.append_nil] at hlines
    rw [text, hlines]
    simp [lines, after, bodies]
  | ended body ending rest ih =>
    obtain ⟨hbody, hrest⟩ := Unbroken.of_ended h
    have hended : ∀ (e : Ending) {ls : Lines}, (∀ b ∈ ls.bodies, b ∈ rest.bodies) →
        ∀ b ∈ ((Lines.ended [] e ls).after body).bodies,
          b ∈ (Lines.ended body ending rest).bodies := by
      intro e ls hls b hb
      rw [after, List.append_nil] at hb
      rcases List.mem_cons.1 hb with rfl | hb
      · exact List.mem_cons_self
      · exact List.mem_cons_of_mem _ (hls b hb)
    rw [text, lines_append hbody]
    cases ending with
    | crlf => exact hended .crlf (ih hrest)
    | lf => exact hended .lf (ih hrest)
    | cr =>
      by_cases hjoin : ∃ cs, rest.text = '\n' :: cs
      · obtain ⟨cs, hcs⟩ := hjoin
        have hrest' : ∀ b ∈ (lines cs).bodies, b ∈ rest.bodies := fun b hb =>
          ih hrest b (by rw [hcs]; exact List.mem_cons_of_mem _ hb)
        rw [hcs]
        exact hended .crlf hrest'
      · have hlone : lines ('\r' :: rest.text) = .ended [] .cr (lines rest.text) := by
          rw [lines, if_pos rfl]
          rintro cs - hcs
          exact hjoin ⟨cs, hcs⟩
        change ∀ b ∈ ((lines ('\r' :: rest.text)).after body).bodies, _
        rw [hlone]
        exact hended .cr (ih hrest)

end Lines

/-- **Tidying, line by line.** A text is its lines with what ends them; tidied, it is the same
lines, each without blanks at its ends and with a space for every run of several blanks. No line of
the tidied text begins or ends with a blank, no two blanks are side by side, all other characters
are kept in order, and nothing is left to tidy. -/
theorem tidy_by_lines (x : String) :
    (lines x.toList).text = x.toList ∧
    (∀ body ∈ (lines x.toList).bodies, ∀ c ∈ body, isBreak c = false) ∧
    (tidy x).toList = ((lines x.toList).map tidyLine).text ∧
    (∀ body ∈ (lines (tidy x).toList).bodies,
      (∀ c ∈ body.head?, isBlank c = false) ∧ ∀ c ∈ body.getLast?, isBlank c = false) ∧
    ((tidy x).toList.IsChain fun c d => ¬ (isBlank c = true ∧ isBlank d = true)) ∧
    (tidy x).toList.filter (fun c => !isBlank c) = x.toList.filter (fun c => !isBlank c) ∧
    tidy (tidy x) = tidy x := by
  have hunbroken : (lines x.toList).Unbroken := unbroken_lines x.toList
  have hlines : (tidy x).toList = ((lines x.toList).map tidyLine).text := by
    rw [tidy_eq, ← Lines.tidy_text hunbroken, text_lines]
  refine ⟨text_lines x.toList, hunbroken, hlines, ?_, ?_, ?_, tidy_tidy x⟩
  · intro b hb
    rw [hlines] at hb
    have hmem := Lines.bodies_lines_text hunbroken.map_tidyLine b hb
    rw [Lines.bodies_map] at hmem
    obtain ⟨body, hbody, rfl⟩ := List.mem_map.1 hmem
    rw [← tidy_body (hunbroken body hbody)]
    exact ⟨Line.head_tidy body rfl, Line.last_tidy body⟩
  · rw [tidy_eq]
    exact Line.blank_start.isChain_tidy x.toList
  · rw [tidy_eq]
    exact Line.blank_start.filter_tidy x.toList

/-- Indented, with a run of two kinds of blanks, a single tab, and blanks between the two characters
that end a line. -/
def couplet : String := "\t roses \t are\tred\r \t\nviolets  "

/-- Three lines become two, and what was between the two ends is gone. -/
theorem tidy_by_lines_couplet :
    (lines couplet.toList).bodies =
      ["\t roses \t are\tred".toList, " \t".toList, "violets  ".toList] ∧
    tidy couplet = "roses are\tred\r\nviolets" ∧
    (tidy couplet).toList = ((lines couplet.toList).map tidyLine).text ∧
    "roses are\tred".toList ∈ (lines (tidy couplet).toList).bodies ∧
    (∀ c ∈ "roses are\tred".toList.head?, isBlank c = false) ∧
    (∀ c ∈ "roses are\tred".toList.getLast?, isBlank c = false) ∧
      tidy (tidy couplet) = tidy couplet := by
  have hbodies : (lines couplet.toList).bodies =
      ["\t roses \t are\tred".toList, " \t".toList, "violets  ".toList] := by decide +kernel
  have htidy : tidy couplet = "roses are\tred\r\nviolets" := by decide +kernel
  have hmem : "roses are\tred".toList ∈ (lines (tidy couplet).toList).bodies := by
    rw [htidy]
    decide +kernel
  obtain ⟨-, -, hlines, htrimmed, -, -, hagain⟩ := tidy_by_lines couplet
  obtain ⟨hhead, hlast⟩ := htrimmed _ hmem
  exact ⟨hbodies, htidy, hlines, hmem, hhead, hlast, hagain⟩

end Text
end Stencil
