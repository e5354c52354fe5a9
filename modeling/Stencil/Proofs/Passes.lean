/-
# Two passes as one

Blanks are reduced in two passes: the edges of the lines go first, and then every run of several
blanks becomes a space. One scan does both. It holds the last run of blanks back until it sees
what follows: before the end of a line the run is dropped, and before anything else it is kept
unless its line has only blanks so far. Each pass is such a scan, and what the second makes of a
run that the first has kept, the scan makes of it at once.

The two line ends of a carriage return and a line feed make no difference: there is no blank
between the two characters, so whether a line starts or ends there decides nothing.

Key definitions: `Text.scan`, `Text.squeeze`.
Key theorems: `Text.trimLines_eq_scan`, `Text.joinRuns_scan`, `Text.tidy_eq_scan`.
-/
import Stencil.Text.Blanks

namespace Stencil
namespace Text

/-- A line ends before or after the character. -/
def isBreak (c : Char) : Bool := c == '\n' || c == '\r'

/-- A run of blanks inside a line: a single one stays, more become a space. -/
def squeeze : List Char → List Char
  | [] => []
  | [c] => [c]
  | _ => [' ']

/-- The rest of a text after the blanks `run`, given backwards, with `keep` of every run inside a
line and without the others; `edge` says that the run started at the start of its line. -/
def scan (keep : List Char → List Char) (edge : Bool) (run : List Char) : List Char → List Char
  | [] => []
  | c :: cs =>
    if isBlank c then scan keep edge (c :: run) cs
    else if isBreak c then c :: scan keep true [] cs
    else (if edge then [] else keep run) ++ c :: scan keep false [] cs

theorem isBlank_of_isBreak {c : Char} (h : isBreak c = true) : isBlank c = false := by
  simp only [isBreak, Bool.or_eq_true, beq_iff_eq] at h
  obtain rfl | rfl := h <;> rfl

/-! ## A pass over a run of blanks -/

/-- The text does not go on with a blank. -/
def Ends (rest : List Char) : Prop := ∀ c ∈ rest.head?, isBlank c = false

theorem ends_nil : Ends [] := by simp [Ends]

theorem ends_cons {c : Char} {cs : List Char} (h : isBlank c = false) : Ends (c :: cs) := by
  simp [Ends, h]

theorem blanks_of_ends {rest : List Char} (h : Ends rest) :
    blanks rest = [] ∧ rest.dropWhile isBlank = rest := by
  cases rest with
  | nil => exact ⟨rfl, rfl⟩
  | cons c cs => simp [blanks, h c rfl]

section
variable {run rest : List Char} (hrun : ∀ c ∈ run, isBlank c = true) (hrest : Ends rest)

include hrun hrest in
theorem blanks_append : blanks (run ++ rest) = run ∧ (run ++ rest).dropWhile isBlank = rest := by
  obtain ⟨hnone, hdrop⟩ := blanks_of_ends hrest
  unfold blanks at hnone ⊢
  rw [List.takeWhile_append_of_pos hrun, List.dropWhile_append_of_pos hrun, hnone, hdrop]
  exact ⟨List.append_nil run, rfl⟩

include hrun hrest in
theorem edgeAt_run (before : List Char) : edgeAt before (run ++ rest) =
    if startsLine before (run ++ rest) || endsLine (run.reverse ++ before) rest then run.length
    else 0 := by
  obtain ⟨hblanks, hdrop⟩ := blanks_append hrun hrest
  rw [edgeAt, hblanks, hdrop]

include hrun hrest in
theorem runAt_run (before : List Char) :
    runAt before (run ++ rest) = if 2 ≤ run.length then run.length else 0 := by
  rw [runAt, (blanks_append hrun hrest).1]

end

theorem edgeAt_ends (before : List Char) {rest : List Char} (h : Ends rest) :
    edgeAt before rest = 0 := by
  rw [edgeAt, (blanks_of_ends h).1]
  exact ite_self 0

theorem runAt_ends (before : List Char) {rest : List Char} (h : Ends rest) :
    runAt before rest = 0 := by
  simp [runAt, (blanks_of_ends h).1]

section
variable {found : List Char → List Char → Nat} {new before cs : List Char} {c : Char}

theorem replaceAll_of_eq_zero (h : found before (c :: cs) = 0) :
    replaceAll found new before 0 (c :: cs) = c :: replaceAll found new (c :: before) 0 cs := by
  rw [replaceAll, h]

theorem replaceAll_of_eq_succ {n : Nat} (h : found before (c :: cs) = n + 1) :
    replaceAll found new before 0 (c :: cs) = new ++ replaceAll found new (c :: before) n cs := by
  rw [replaceAll, h]

/-- The rest of a match is passed over. -/
theorem replaceAll_length (before run rest : List Char) :
    replaceAll found new before run.length (run ++ rest) =
      replaceAll found new (run.reverse ++ before) 0 rest := by
  induction run generalizing before with
  | nil => rfl
  | cons c run ih => simp [replaceAll, ih]

/-- A match that is a whole run. -/
theorem replaceAll_run {run rest : List Char} (hne : run ≠ [])
    (h : found before (run ++ rest) = run.length) :
    replaceAll found new before 0 (run ++ rest) =
      new ++ replaceAll found new (run.reverse ++ before) 0 rest := by
  cases run with
  | nil => exact absurd rfl hne
  | cons c run =>
    have hstep : replaceAll found new before 0 (c :: (run ++ rest)) =
        new ++ replaceAll found new (c :: before) run.length (run ++ rest) :=
      replaceAll_of_eq_succ h
    rw [List.cons_append, hstep, replaceAll_length]
    simp

end

/-! ## The edges of the lines -/

/-- A line with only blanks so far: nothing, or the end of another line, comes before them. -/
def edgeAfter : List Char → Bool
  | [] => true
  | c :: _ => isBreak c

theorem startsLine_blank (before : List Char) {c : Char} (cs : List Char) (h : isBlank c = true) :
    startsLine before (c :: cs) = edgeAfter before := by
  cases before with
  | nil => rfl
  | cons b _ =>
    have hc : (some c != some '\n') = true := by
      simp only [bne_iff_ne, ne_eq, Option.some.injEq]
      rintro rfl
      cases h
    rw [startsLine, List.head?_cons, hc, Bool.and_true]
    rfl

theorem endsLine_blank {b : Char} (before : List Char) (c : Char) (cs : List Char)
    (h : isBlank b = true) :
    endsLine (b :: before) (c :: cs) = isBreak c := by
  have hb : (some b != some '\r') = true := by
    simp only [bne_iff_ne, ne_eq, Option.some.injEq]
    rintro rfl
    cases h
  rw [endsLine, List.head?_cons, hb, Bool.and_true, Bool.or_comm]
  rfl

/-- Blanks inside a line are kept: there is no edge before any of them. -/
theorem trim_inside {run rest : List Char} (before : List Char)
    (hrun : ∀ c ∈ run, isBlank c = true) (hrest : Ends rest)
    (hstart : run ≠ [] → edgeAfter before = false)
    (hend : run ≠ [] → endsLine (run.reverse ++ before) rest = false) :
    replaceAll edgeAt [] before 0 (run ++ rest) =
      run ++ replaceAll edgeAt [] (run.reverse ++ before) 0 rest := by
  induction run generalizing before with
  | nil => rfl
  | cons b run ih =>
    have hb : isBlank b = true := hrun b List.mem_cons_self
    have hnone : edgeAt before (b :: (run ++ rest)) = 0 := by
      rw [← List.cons_append, edgeAt_run hrun hrest, hend (by simp), List.cons_append,
        startsLine_blank _ _ hb, hstart (by simp)]
      rfl
    have hbreak : isBreak b = false := by
      cases h : isBreak b with
      | false => rfl
      | true => rw [isBlank_of_isBreak h] at hb; cases hb
    have htail : ∀ c ∈ run, isBlank c = true := fun c hc => hrun c (List.mem_cons_of_mem _ hc)
    rw [List.cons_append, replaceAll_of_eq_zero hnone,
      ih (b :: before) htail (fun _ => hbreak) fun _ => by simpa using hend (by simp)]
    simp

/-- The first pass on a run of blanks before another character: it goes if its line ends there or
has only blanks so far. -/
theorem trim_run {run : List Char} (before : List Char) {c : Char} (cs : List Char)
    (hrun : ∀ b ∈ run, isBlank b = true) (hc : isBlank c = false) :
    replaceAll edgeAt [] before 0 (run ++ c :: cs) =
      (if isBreak c || edgeAfter before then [] else run) ++
        c :: replaceAll edgeAt [] (c :: (run.reverse ++ before)) 0 cs := by
  have hrest : Ends (c :: cs) := ends_cons hc
  rw [← replaceAll_of_eq_zero (edgeAt_ends (run.reverse ++ before) hrest)]
  cases run with
  | nil => simp
  | cons b run =>
    have hb : isBlank b = true := hrun b List.mem_cons_self
    have hstarts : startsLine before (b :: run ++ c :: cs) = edgeAfter before :=
      startsLine_blank _ _ hb
    have hends : endsLine ((b :: run).reverse ++ before) (c :: cs) = isBreak c := by
      obtain ⟨d, ds, hd⟩ := List.exists_cons_of_ne_nil (l := (b :: run).reverse) (by simp)
      rw [hd]
      exact endsLine_blank _ _ _ (hrun d (List.mem_reverse.1 (hd ▸ List.mem_cons_self)))
    cases hedge : isBreak c || edgeAfter before with
    | true =>
      rw [if_pos rfl, replaceAll_run (by simp)]
      rw [edgeAt_run hrun hrest, hstarts, hends, Bool.or_comm, hedge]
      rfl
    | false =>
      obtain ⟨hbreak, hafter⟩ := Bool.or_eq_false_iff.1 hedge
      exact trim_inside before hrun hrest (fun _ => hafter) fun _ => hends.trans hbreak

/-- The blanks at the end of the text go. -/
theorem trim_end {run : List Char} (before : List Char) (hrun : ∀ b ∈ run, isBlank b = true) :
    replaceAll edgeAt [] before 0 run = [] := by
  cases run with
  | nil => rfl
  | cons b run =>
    rw [← List.append_nil (b :: run), replaceAll_run (by simp)]
    · rfl
    · rw [edgeAt_run hrun ends_nil]
      simp [endsLine]

theorem replaceAll_edgeAt (cs run before : List Char)
    (hrun : ∀ b ∈ run, isBlank b = true) :
    replaceAll edgeAt [] before 0 (run.reverse ++ cs) =
      scan List.reverse (edgeAfter before) run cs := by
  induction cs generalizing run before with
  | nil =>
    rw [List.append_nil]
    exact trim_end before fun b hb => hrun b (List.mem_reverse.1 hb)
  | cons c cs ih =>
    rw [scan]
    cases hc : isBlank c with
    | true =>
      rw [if_pos rfl, ← ih (c :: run) before (List.forall_mem_cons.2 ⟨hc, hrun⟩)]
      simp
    | false =>
      have hrest := ih [] (c :: (run.reverse.reverse ++ before)) (by simp)
      rw [List.reverse_nil, List.nil_append] at hrest
      rw [trim_run before cs (fun b hb => hrun b (List.mem_reverse.1 hb)) hc, hrest]
      show _ ++ c :: scan List.reverse (isBreak c) [] cs = _
      cases hbreak : isBreak c <;> simp

/-- **The first pass** is a scan that keeps the runs inside lines as they are. -/
theorem trimLines_eq_scan (cs : List Char) : trimLines cs = scan List.reverse true [] cs :=
  replaceAll_edgeAt cs [] [] (by simp)

/-! ## The runs of several blanks -/

theorem squeeze_reverse (run : List Char) : squeeze run.reverse = squeeze run := by
  have hlength : ∀ l : List Char, squeeze l = if 2 ≤ l.length then [' '] else l := by
    rintro (- | ⟨b, - | ⟨c, run⟩⟩) <;> simp [squeeze]
  rw [hlength, hlength, List.length_reverse]
  split
  · rfl
  · next h =>
    rcases run with - | ⟨b, - | ⟨c, run⟩⟩
    · rfl
    · rfl
    · simp at h

/-- The second pass on a run of blanks. -/
theorem join_run {run rest : List Char} (before : List Char)
    (hrun : ∀ b ∈ run, isBlank b = true) (hrest : Ends rest) :
    replaceAll runAt [' '] before 0 (run ++ rest) =
      squeeze run ++ replaceAll runAt [' '] (run.reverse ++ before) 0 rest := by
  have hfound := runAt_run hrun hrest before
  rcases run with - | ⟨b, - | ⟨c, run⟩⟩
  · rfl
  · exact replaceAll_of_eq_zero hfound
  · exact replaceAll_run (by simp) (hfound.trans (if_pos (by simp)))

/-- **The second pass** after the first: a run that was kept as it is, is squeezed. -/
theorem joinRuns_scan (cs : List Char) {run : List Char} (edge : Bool) (before : List Char)
    (hrun : ∀ b ∈ run, isBlank b = true) :
    replaceAll runAt [' '] before 0 (scan List.reverse edge run cs) = scan squeeze edge run cs := by
  induction cs generalizing edge run before with
  | nil => rfl
  | cons c cs ih =>
    rw [scan, scan]
    cases hc : isBlank c with
    | true => exact ih edge before (List.forall_mem_cons.2 ⟨hc, hrun⟩)
    | false =>
      have hnone : ∀ before cs, runAt before (c :: cs) = 0 :=
        fun before _ => runAt_ends before (ends_cons hc)
      cases hbreak : isBreak c with
      | true =>
        show replaceAll runAt [' '] before 0 (c :: scan List.reverse true [] cs) =
          c :: scan squeeze true [] cs
        rw [replaceAll_of_eq_zero (hnone _ _), ih true _ (by simp)]
      | false =>
        have hkept : ∀ b ∈ (if edge then [] else run.reverse), isBlank b = true := by
          cases edge with
          | true => simp
          | false => simpa using hrun
        show replaceAll runAt [' '] before 0
            ((if edge then [] else run.reverse) ++ c :: scan List.reverse false [] cs) =
          (if edge then [] else squeeze run) ++ c :: scan squeeze false [] cs
        rw [join_run before hkept (ends_cons hc), replaceAll_of_eq_zero (hnone _ _),
          ih false _ (by simp)]
        cases edge with
        | true => rfl
        | false => exact congrArg (· ++ _) (squeeze_reverse run)

/-- **Both passes** are one scan, which squeezes the runs inside lines. -/
theorem tidy_eq_scan (s : String) : (tidy s).toList = scan squeeze true [] s.toList := by
  rw [tidy, String.toList_ofList, trimLines_eq_scan]
  exact joinRuns_scan s.toList true [] (by simp)

end Text
end Stencil
