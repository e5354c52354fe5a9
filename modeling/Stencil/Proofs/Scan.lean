/-
# Scanning generated text

Generated text switches between plain text and sections of code. `scan` reads it
from left to right: `<?php` and `<?=` open a section and `?>` closes it, a string
literal is skipped with its escapes, and outside of literals brackets and braces
of a section are matched. Brackets are matched within their section, braces over
the whole text. A text is `Balanced` if the scan ends in plain text with nothing
left open.

`scan` looks ahead, which does not go with texts put together from parts. `step`
reads one character at a time instead and keeps what has been read of a mark in
its phase, so that parts are read one after another. It is stricter: plain text
with `<?` that opens no section is refused.

Key definitions: `Scan.scan`, `Scan.Balanced`, `Scan.step`, `Scan.Reads`.
Key theorems: `Scan.balanced_of_reads`, `Scan.Reads.append`, `Scan.reads_tidy`.
-/
import Stencil.Proofs.Passes
import Stencil.Text.Quoted

namespace Stencil
namespace Scan

/-- What is open: the closing brackets that a section still needs, the innermost
first, and how many braces there are to close. -/
structure Nesting where
  pending : List Char
  depth : Nat
  deriving DecidableEq

/-- Match a character of code. -/
def Nesting.read (n : Nesting) (c : Char) : Option Nesting :=
  if c = '(' then some { n with pending := ')' :: n.pending }
  else if c = '[' then some { n with pending := ']' :: n.pending }
  else if c = ')' ∨ c = ']' then
    match n.pending with
    | [] => none
    | bracket :: rest => if bracket = c then some { n with pending := rest } else none
  else if c = '\x7b' then some { n with depth := n.depth + 1 }
  else if c = '\x7d' then
    match n.depth with
    | 0 => none
    | depth + 1 => some { n with depth := depth }
  else some n

/-- The two kinds of literals. -/
inductive Quote where
  | single
  | double
  deriving DecidableEq

/-- The character that starts and ends a literal. -/
def Quote.char : Quote → Char
  | .single => Text.apostrophe
  | .double => '"'

/-- The kind of literal that a character starts. -/
def Quote.of? (c : Char) : Option Quote :=
  if c = Text.apostrophe then some .single else if c = '"' then some .double else none

/-- Where a scan is: in plain text, in a section of code, or in a literal. -/
inductive Mode where
  | text
  | code
  | literal (quote : Quote)
  deriving DecidableEq

/-- Scan characters to the end. There is no result where a bracket is closed that
is not open, a section ends with brackets open, or a brace too many is closed. -/
def scan : Mode → Nesting → List Char → Option (Mode × Nesting)
  | mode, n, [] => some (mode, n)
  | .text, n, '<' :: '?' :: 'p' :: 'h' :: 'p' :: rest => scan .code n rest
  | .text, n, '<' :: '?' :: '=' :: rest => scan .code n rest
  | .text, n, _ :: rest => scan .text n rest
  | .code, n, '?' :: '>' :: rest => if n.pending = [] then scan .text n rest else none
  | .code, n, c :: rest =>
    match Quote.of? c with
    | some quote => scan (.literal quote) n rest
    | none => (n.read c).bind fun n => scan .code n rest
  | .literal quote, n, '\\' :: _ :: rest => scan (.literal quote) n rest
  | .literal quote, n, c :: rest =>
    if c = quote.char then scan .code n rest else scan (.literal quote) n rest

/-- The scan of the text ends in plain text with nothing left open. -/
def Balanced (text : String) : Prop := scan .text ⟨[], 0⟩ text.toList = some (.text, ⟨[], 0⟩)

instance (text : String) : Decidable (Balanced text) :=
  inferInstanceAs (Decidable (scan .text ⟨[], 0⟩ text.toList = some (.text, ⟨[], 0⟩)))

/-! ### One character at a time -/

/-- What the last characters mean for the next one. -/
inductive Phase where
  | text
  /-- After `<`. -/
  | angle
  /-- After `<?`. -/
  | mark
  /-- After `<?p`. -/
  | markP
  /-- After `<?ph`. -/
  | markPh
  /-- In a section, perhaps right after `?`. -/
  | code (asked : Bool)
  /-- In a literal, perhaps right after a backslash. -/
  | literal (quote : Quote) (escaped : Bool)
  deriving DecidableEq

/-- What has been read of a mark or an escape. -/
def Phase.seen : Phase → List Char
  | .text => []
  | .angle => ['<']
  | .mark => ['<', '?']
  | .markP => ['<', '?', 'p']
  | .markPh => ['<', '?', 'p', 'h']
  | .code asked => if asked then ['?'] else []
  | .literal _ escaped => if escaped then ['\\'] else []

def Phase.mode : Phase → Mode
  | .code _ => .code
  | .literal quote _ => .literal quote
  | _ => .text

/-- In plain text, with no mark begun beyond `<`. -/
def Phase.Calm (p : Phase) : Prop := p = .text ∨ p = .angle

structure State where
  phase : Phase
  nesting : Nesting
  deriving DecidableEq

/-- Read a character of code that is not `?` and does not end the section. -/
def codeStep (n : Nesting) (c : Char) : Option State :=
  match Quote.of? c with
  | some quote => some ⟨.literal quote false, n⟩
  | none => (n.read c).map (⟨.code false, ·⟩)

/-- Read one character. -/
def step : State → Char → Option State
  | ⟨.text, n⟩, c => some ⟨if c = '<' then .angle else .text, n⟩
  | ⟨.angle, n⟩, c => some ⟨if c = '?' then .mark else if c = '<' then .angle else .text, n⟩
  | ⟨.mark, n⟩, c =>
    if c = '=' then some ⟨.code false, n⟩ else if c = 'p' then some ⟨.markP, n⟩ else none
  | ⟨.markP, n⟩, c => if c = 'h' then some ⟨.markPh, n⟩ else none
  | ⟨.markPh, n⟩, c => if c = 'p' then some ⟨.code false, n⟩ else none
  | ⟨.code asked, n⟩, c =>
    if c = '?' then some ⟨.code true, n⟩
    else if asked ∧ c = '>' then if n.pending = [] then some ⟨.text, n⟩ else none
    else codeStep n c
  | ⟨.literal quote escaped, n⟩, c =>
    if escaped then some ⟨.literal quote false, n⟩
    else if c = '\\' then some ⟨.literal quote true, n⟩
    else if c = quote.char then some ⟨.code false, n⟩
    else some ⟨.literal quote false, n⟩

/-- The text leads from one state to another. -/
def Reads (s : State) (text : String) (t : State) : Prop := text.toList.foldlM step s = some t

theorem Reads.append {s t u : State} {a b : String} (ha : Reads s a t) (hb : Reads t b u) :
    Reads s (a ++ b) u := by
  unfold Reads at *
  rw [String.toList_append, List.foldlM_append, ha]
  exact hb

/-! ### Looking ahead -/

section
variable {n : Nesting} {c : Char} {rest : List Char}

theorem scan_text_cons (h : c ≠ '<') : scan .text n (c :: rest) = scan .text n rest := by
  rw [scan]
  · exact fun _ hc _ => h hc
  · exact fun _ hc _ => h hc

theorem scan_text_angle (h : c ≠ '?') : scan .text n ('<' :: c :: rest) = scan .text n (c :: rest) := by
  rw [scan]
  · exact fun _ _ he => h (List.cons.inj he).1
  · exact fun _ _ he => h (List.cons.inj he).1

theorem scan_code_cons (h : c ≠ '?') : scan .code n (c :: rest) =
    match Quote.of? c with
    | some quote => scan (.literal quote) n rest
    | none => (n.read c).bind fun n => scan .code n rest := by
  rw [scan]
  exact fun _ hc _ => h hc

theorem scan_code_asked (h : c ≠ '>') : scan .code n ('?' :: c :: rest) = scan .code n (c :: rest) := by
  rw [scan]
  · rfl
  · exact fun _ _ he => h (List.cons.inj he).1

theorem scan_literal_cons {quote : Quote} (h : c ≠ '\\') : scan (.literal quote) n (c :: rest) =
    if c = quote.char then scan .code n rest else scan (.literal quote) n rest := by
  rw [scan]
  exact fun _ _ hc _ => h hc

/-- A character of code that is not `?` and does not end the section. -/
theorem scan_codeStep {t : State} (hc : c ≠ '?') (h : codeStep n c = some t) :
    scan .code n (c :: rest) = scan t.phase.mode t.nesting (t.phase.seen ++ rest) := by
  rw [scan_code_cons hc]
  unfold codeStep at h
  cases hq : Quote.of? c with
  | some quote =>
    rw [hq] at h
    cases h
    rfl
  | none =>
    rw [hq] at h
    obtain ⟨n', hn, rfl⟩ := Option.map_eq_some_iff.1 h
    dsimp only
    rw [hn]
    rfl

end

/-- What has been seen and the next character are scanned as the step says. -/
theorem scan_step {s t : State} {c : Char} (h : step s c = some t) (rest : List Char) :
    scan s.phase.mode s.nesting (s.phase.seen ++ c :: rest) =
      scan t.phase.mode t.nesting (t.phase.seen ++ rest) := by
  obtain ⟨phase, n⟩ := s
  cases phase with
  | text =>
    cases h
    by_cases hc : c = '<'
    · rw [if_pos hc, hc]
      rfl
    · rw [if_neg hc]
      exact scan_text_cons hc
  | angle =>
    cases h
    by_cases hq : c = '?'
    · rw [if_pos hq, hq]
      rfl
    · rw [if_neg hq]
      show scan .text n ('<' :: c :: rest) = _
      rw [scan_text_angle hq]
      by_cases hc : c = '<'
      · rw [if_pos hc, hc]
        rfl
      · rw [if_neg hc]
        exact scan_text_cons hc
  | mark =>
    rw [step] at h
    by_cases he : c = '='
    · rw [if_pos he] at h
      cases h
      rw [he]
      rfl
    · rw [if_neg he] at h
      by_cases hp : c = 'p'
      · rw [if_pos hp] at h
        cases h
        rw [hp]
        rfl
      · rw [if_neg hp] at h
        cases h
  | markP =>
    rw [step] at h
    by_cases hh : c = 'h'
    · rw [if_pos hh] at h
      cases h
      rw [hh]
      rfl
    · rw [if_neg hh] at h
      cases h
  | markPh =>
    rw [step] at h
    by_cases hp : c = 'p'
    · rw [if_pos hp] at h
      cases h
      rw [hp]
      rfl
    · rw [if_neg hp] at h
      cases h
  | code asked =>
    rw [step] at h
    by_cases hq : c = '?'
    · rw [if_pos hq] at h
      cases h
      cases asked with
      | false => rw [hq]; rfl
      | true => rw [hq]; exact scan_code_asked (by decide)
    · rw [if_neg hq] at h
      by_cases hend : asked = true ∧ c = '>'
      · rw [if_pos hend] at h
        obtain ⟨rfl, rfl⟩ := hend
        show (if n.pending = [] then scan .text n rest else none) = _
        by_cases hn : n.pending = []
        · rw [if_pos hn] at h ⊢
          cases h
          rfl
        · rw [if_neg hn] at h
          cases h
      · rw [if_neg hend] at h
        cases asked with
        | false => exact scan_codeStep hq h
        | true =>
          have hc : c ≠ '>' := fun hc => hend ⟨rfl, hc⟩
          exact (scan_code_asked hc).trans (scan_codeStep hq h)
  | literal quote escaped =>
    rw [step] at h
    cases escaped with
    | true =>
      cases h
      rfl
    | false =>
      rw [if_neg Bool.false_ne_true] at h
      by_cases hb : c = '\\'
      · rw [if_pos hb] at h
        cases h
        rw [hb]
        rfl
      · rw [if_neg hb] at h
        show scan (.literal quote) n (c :: rest) = _
        rw [scan_literal_cons hb]
        by_cases hc : c = quote.char
        · rw [if_pos hc] at h ⊢
          cases h
          rfl
        · rw [if_neg hc] at h ⊢
          cases h
          rfl

theorem scan_foldlM : ∀ (cs : List Char) {s t : State}, cs.foldlM step s = some t → t.phase.Calm →
    scan s.phase.mode s.nesting (s.phase.seen ++ cs) = some (.text, t.nesting)
  | [], s, t, h, ht => by
    cases h
    obtain ⟨phase, n⟩ := s
    rcases ht with rfl | rfl <;> rfl
  | c :: cs, s, t, h, ht => by
    obtain ⟨u, hu, hrest⟩ := Option.bind_eq_some_iff.1 h
    rw [scan_step hu cs]
    exact scan_foldlM cs hrest ht

/-- A text that is read from plain text to plain text and leaves nothing open is
balanced. -/
theorem balanced_of_reads {text : String} {p : Phase} (hp : p.Calm)
    (h : Reads ⟨.text, ⟨[], 0⟩⟩ text ⟨p, ⟨[], 0⟩⟩) : Balanced text := scan_foldlM _ h hp

/-! ### Reducing blanks -/

/-- What a blank or the end of a line does. -/
theorem step_blank {c : Char} (hc : Text.isBlank c = true ∨ Text.isBreak c = true) (s : State) :
    step s c = step s ' ' := by
  have hc : c = ' ' ∨ c = '\t' ∨ c = '\n' ∨ c = '\r' := by
    simpa [Text.isBlank, Text.isBreak, or_assoc] using hc
  obtain ⟨phase, n⟩ := s
  cases phase with
  | text | angle | mark | markP | markPh => rcases hc with rfl | rfl | rfl | rfl <;> rfl
  | code asked => cases asked <;> rcases hc with rfl | rfl | rfl | rfl <;> rfl
  | literal quote escaped =>
    cases quote <;> cases escaped <;> rcases hc with rfl | rfl | rfl | rfl <;> rfl

/-- A second blank does nothing. -/
theorem step_blank_twice {s t : State} (h : step s ' ' = some t) : step t ' ' = some t := by
  obtain ⟨phase, n⟩ := s
  cases phase with
  | text | angle => cases h; rfl
  | mark | markP | markPh => cases h
  | code asked => cases asked <;> cases h <;> rfl
  | literal quote escaped => cases quote <;> cases escaped <;> cases h <;> rfl

/-- A blank in plain text leads to plain text, and from nowhere else. -/
theorem calm_of_step_blank {s t : State} (h : step s ' ' = some t) (ht : t.phase.Calm) :
    s.phase.Calm ∧ s.nesting = t.nesting := by
  obtain ⟨phase, n⟩ := s
  cases phase with
  | text => cases h; exact ⟨.inl rfl, rfl⟩
  | angle => cases h; exact ⟨.inr rfl, rfl⟩
  | mark | markP | markPh => cases h
  | code asked => cases asked <;> cases h <;> rcases ht with ht | ht <;> cases ht
  | literal quote escaped =>
    cases quote <;> cases escaped <;> cases h <;> rcases ht with ht | ht <;> cases ht

/-- The state `s` is `s₀` after a run of blanks. -/
def After (run : List Char) (s₀ s : State) : Prop :=
  (∀ c ∈ run, Text.isBlank c = true) ∧ (run = [] ∧ s₀ = s ∨ run ≠ [] ∧ step s₀ ' ' = some s)

namespace After

variable {run : List Char} {s₀ s t : State} {c : Char}

/-- One more blank, or the end of the line, after a run of blanks. -/
theorem step_eq (h : After run s₀ s) (hc : Text.isBlank c = true ∨ Text.isBreak c = true)
    (hs : step s c = some t) : step s₀ ' ' = some t := by
  rw [step_blank hc] at hs
  rcases h.2 with ⟨-, rfl⟩ | ⟨-, h⟩
  · exact hs
  · rw [step_blank_twice h] at hs
    rw [h, hs]

/-- A run reads as what is kept of it inside a line. -/
theorem squeeze (h : After run s₀ s) : (Text.squeeze run).foldlM step s₀ = some s := by
  obtain ⟨hrun, h⟩ := h
  match run with
  | [] =>
    rcases h with ⟨-, rfl⟩ | ⟨h, -⟩
    · rfl
    · exact absurd rfl h
  | [c] =>
    have hstep : step s₀ ' ' = some s := (h.resolve_left (by simp)).2
    rw [← step_blank (.inl (hrun c (by simp)))] at hstep
    rw [Text.squeeze, List.foldlM_cons, hstep]
    rfl
  | c :: d :: rest =>
    have hstep : step s₀ ' ' = some s := (h.resolve_left (by simp)).2
    show [' '].foldlM step s₀ = some s
    rw [List.foldlM_cons, hstep]
    rfl

/-- Where a blank does nothing, a run of blanks does nothing. -/
theorem eq_of_stays (h : After run s₀ s) (h₀ : step s₀ ' ' = some s₀) : s = s₀ := by
  rcases h.2 with ⟨-, rfl⟩ | ⟨-, h⟩
  · rfl
  · rw [h₀] at h
    exact (Option.some.inj h).symm

end After

/-- Reducing blanks does not change where a text leads, but for a blank at its end.
The text has been read up to `s`, and what is kept of it up to `s₀`. -/
theorem foldlM_scan (cs : List Char) {edge : Bool} {run : List Char} {s₀ s t : State}
    (h : cs.foldlM step s = some t) (hs : After run s₀ s) (hedge : edge = true → step s₀ ' ' = some s₀) :
    ∃ t₀, (Text.scan Text.squeeze edge run cs).foldlM step s₀ = some t₀ ∧
      (t₀ = t ∨ step t₀ ' ' = some t) := by
  induction cs generalizing edge run s₀ s with
  | nil =>
    cases h
    refine ⟨s₀, rfl, ?_⟩
    rcases hs.2 with ⟨-, h⟩ | ⟨-, h⟩
    · exact .inl h
    · exact .inr h
  | cons c cs ih =>
    obtain ⟨u, hu, hrest⟩ := Option.bind_eq_some_iff.1 h
    rw [Text.scan]
    by_cases hblank : Text.isBlank c = true
    · rw [if_pos hblank]
      refine ih hrest ⟨?_, .inr ⟨by simp, hs.step_eq (.inl hblank) hu⟩⟩ hedge
      exact List.forall_mem_cons.2 ⟨hblank, hs.1⟩
    · rw [if_neg hblank]
      by_cases hbreak : Text.isBreak c = true
      · have hstep := hs.step_eq (.inr hbreak) hu
        rw [if_pos hbreak, List.foldlM_cons, step_blank (.inr hbreak), hstep]
        exact ih hrest ⟨by simp, .inl ⟨rfl, rfl⟩⟩ fun _ => step_blank_twice hstep
      · have hkept : (if edge then [] else Text.squeeze run).foldlM step s₀ = some s := by
          cases edge with
          | true => rw [hs.eq_of_stays (hedge rfl)]; rfl
          | false => exact hs.squeeze
        rw [if_neg hbreak, List.foldlM_append, hkept]
        show ∃ t₀, (step s c >>= fun u => (Text.scan Text.squeeze false [] cs).foldlM step u) =
          some t₀ ∧ _
        rw [hu]
        exact ih hrest ⟨by simp, .inl ⟨rfl, rfl⟩⟩ (by simp)

/-- Reducing blanks does not change what is open. -/
theorem reads_tidy {n : Nesting} {text : String} {t : State} (h : Reads ⟨.text, n⟩ text t)
    (ht : t.phase.Calm) : ∃ p, p.Calm ∧ Reads ⟨.text, n⟩ (Text.tidy text) ⟨p, t.nesting⟩ := by
  obtain ⟨⟨p, n'⟩, hread, hend⟩ := foldlM_scan _ h ⟨by simp, .inl ⟨rfl, rfl⟩⟩ fun (_ : true = true) => rfl
  have hread : Reads ⟨.text, n⟩ (Text.tidy text) ⟨p, n'⟩ := by
    unfold Reads
    rw [Text.tidy_eq_scan]
    exact hread
  rcases hend with rfl | hend
  · exact ⟨p, ht, hread⟩
  · obtain ⟨hp, rfl⟩ := calm_of_step_blank hend ht
    exact ⟨p, hp, hread⟩

end Scan
end Stencil
