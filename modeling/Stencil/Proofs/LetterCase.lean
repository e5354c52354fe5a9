/-
# Texts without their case

Lower case depends on the neighbours of a character in one respect only: a capital sigma
has two small forms. If these count as one, a text in lower case is put together from its
characters one by one (`Text.map_lowerFrom`), and what has no case left stays as it is
(`Text.foldChar_of_mem`). The latter is a fact about the table of capitals: no small
letter in it is a capital.

Key definitions: `Text.foldChar`, `Text.fold`.
Key theorems: `Text.map_lowerFrom`, `Text.foldChar_of_mem`, `Text.slash_of_mem_lowerFrom`.
-/
import Stencil.Text.Lower

namespace Stencil
namespace Text

/-! ### The table of capitals -/

/-- A run of capitals. -/
abbrev Run := Nat × Nat × Nat × Nat

namespace Run

def first (r : Run) : Nat := r.1
def last (r : Run) : Nat := r.2.1
def step (r : Run) : Nat := r.2.2.1
def small (r : Run) : Nat := r.2.2.2

/-- The number is that of a capital in the run. -/
def Has (r : Run) (n : Nat) : Prop := r.first ≤ n ∧ n ≤ r.last ∧ (n - r.first) % r.step = 0

/-- The number of the small letter of a capital. -/
def letter (r : Run) (n : Nat) : Nat := r.small + (n - r.first)

/-- The numbers of the capitals. -/
def capitals (r : Run) : List Nat :=
  (List.range ((r.last - r.first) / r.step + 1)).map (r.first + r.step * ·)

/-- The numbers of the small letters. -/
def smalls (r : Run) : List Nat := r.capitals.map r.letter

theorem Has.mem_capitals {r : Run} {n : Nat} (h : r.Has n) : n ∈ r.capitals := by
  obtain ⟨hfirst, hlast, hstep⟩ := h
  refine List.mem_map.2 ⟨(n - r.first) / r.step, ?_, ?_⟩
  · rw [List.mem_range, Nat.lt_succ_iff]
    exact Nat.div_le_div_right (Nat.sub_le_sub_right hlast _)
  · rw [Nat.mul_div_cancel' (Nat.dvd_of_mod_eq_zero hstep)]
    omega

/-- The small letters of a run are characters past the slash, and not the capital I with
a dot. -/
def sound (r : Run) : Bool :=
  '/'.toNat < r.small &&
    (r.letter r.last < 0xd800 || (0xdfff < r.small && r.letter r.last < 0x110000)) &&
    (r.letter r.last < 'İ'.toNat || 'İ'.toNat < r.small)

end Run

theorem lowerRuns_sound : lowerRuns.all Run.sound = true := by decide +kernel

/-- Numbers as the bits of one number. -/
def mask (ns : List Nat) : Nat := ns.foldr (fun n m => 1 <<< n ||| m) 0

/-- The numbers that belong to some run, as the bits of one number. -/
def runsMask (f : Run → List Nat) (runs : List Run) : Nat :=
  runs.foldr (fun r m => mask (f r) ||| m) 0

theorem testBit_mask {ns : List Nat} {n : Nat} (h : n ∈ ns) : (mask ns).testBit n = true := by
  induction ns with
  | nil => cases h
  | cons a ns ih =>
    unfold mask at ih ⊢
    rw [List.foldr_cons, Nat.testBit_or, Nat.testBit_shiftLeft]
    rcases List.mem_cons.1 h with rfl | h
    · simp
    · rw [ih h, Bool.or_true]

theorem testBit_runsMask {f : Run → List Nat} {runs : List Run} {r : Run} (hr : r ∈ runs) {n : Nat}
    (hn : n ∈ f r) :
    (runsMask f runs).testBit n = true := by
  induction runs with
  | nil => cases hr
  | cons s runs ih =>
    unfold runsMask at ih ⊢
    rw [List.foldr_cons, Nat.testBit_or]
    rcases List.mem_cons.1 hr with rfl | hr
    · rw [testBit_mask hn, Bool.true_or]
    · rw [ih hr, Bool.or_true]

-- Bits are compared all at once; run by run there are many thousand pairs.
theorem lowerRuns_apart :
    runsMask Run.smalls lowerRuns &&& runsMask Run.capitals lowerRuns = 0 := by
  decide +kernel

/-- No small letter of the table is a capital. -/
theorem not_has_letter {r s : Run} (hr : r ∈ lowerRuns) (hs : s ∈ lowerRuns) {n : Nat}
    (h : r.Has n) :
    ¬ s.Has (r.letter n) := by
  intro hcapital
  have hboth : (runsMask Run.smalls lowerRuns &&& runsMask Run.capitals lowerRuns).testBit
      (r.letter n) = true := by
    rw [Nat.testBit_and, testBit_runsMask hr (List.mem_map_of_mem h.mem_capitals),
      testBit_runsMask hs hcapital.mem_capitals, Bool.true_and]
  rw [lowerRuns_apart, Nat.zero_testBit] at hboth
  cases hboth

theorem lowerChar_of_not_has {c : Char} (hc : c ≠ 'İ') (h : ∀ r ∈ lowerRuns, ¬ Run.Has r c.toNat) :
    lowerChar c = [c] := by
  unfold lowerChar
  rw [if_neg hc, List.find?_eq_none.2]
  rintro ⟨first, last, step, small⟩ hr hin
  refine h _ hr ?_
  simpa [Run.Has, Run.first, Run.last, Run.step, and_assoc] using hin

/-- A character has no small letter of its own, or is the capital I with a dot, or stands in
the table. -/
theorem lowerChar_cases (c : Char) :
    lowerChar c = [c] ∨ lowerChar c = ['i', '̇'] ∨
      ∃ r ∈ lowerRuns, Run.Has r c.toNat ∧ lowerChar c = [Char.ofNat (Run.letter r c.toNat)] := by
  unfold lowerChar
  by_cases hc : c = 'İ'
  · rw [if_pos hc]
    exact .inr (.inl rfl)
  rw [if_neg hc]
  split
  · rename_i first last step small hfind
    refine .inr (.inr ⟨_, List.mem_of_find?_eq_some hfind, ?_, rfl⟩)
    have hin := List.find?_some hfind
    simpa [Run.Has, Run.first, Run.last, Run.step, and_assoc] using hin
  · exact .inl rfl

theorem toNat_ofNat {n : Nat} (h : n.isValidChar) : (Char.ofNat n).toNat = n := by
  rw [Char.ofNat, dif_pos h]
  rfl

/-- What a small letter of the table can be. -/
theorem toNat_small {r : Run} (hr : r ∈ lowerRuns) {n : Nat} (hn : r.Has n) :
    (Char.ofNat (r.letter n)).toNat = r.letter n ∧ '/'.toNat < r.letter n ∧
      r.letter n ≠ 'İ'.toNat := by
  have hsound := List.all_eq_true.1 lowerRuns_sound r hr
  simp only [Run.sound, Bool.and_eq_true, Bool.or_eq_true, decide_eq_true_eq] at hsound
  obtain ⟨⟨hslash, hvalid⟩, hdot⟩ := hsound
  have hlow : r.small ≤ r.letter n := Nat.le_add_right _ _
  have hhigh : r.letter n ≤ r.letter r.last := Nat.add_le_add_left (Nat.sub_le_sub_right hn.2.1 _) _
  refine ⟨toNat_ofNat ?_, by omega, by omega⟩
  unfold Nat.isValidChar
  omega

/-- The small letters of a character are small letters. -/
theorem lowerChar_of_mem {c y : Char} (h : y ∈ lowerChar c) : lowerChar y = [y] := by
  rcases lowerChar_cases c with hown | hdot | ⟨r, hr, hin, hrun⟩
  · rw [hown, List.mem_singleton] at h
    rw [h, hown]
  · rw [hdot, List.mem_cons, List.mem_singleton] at h
    rcases h with rfl | rfl <;> decide +kernel
  · rw [hrun, List.mem_singleton] at h
    obtain ⟨hnat, -, hdot⟩ := toNat_small hr hin
    rw [← h] at hnat
    refine lowerChar_of_not_has ?_ fun s hs => ?_
    · rintro rfl
      exact hdot hnat.symm
    · rw [hnat]
      exact not_has_letter hr hs hin

/-- Only a slash goes to a slash. -/
theorem slash_of_mem_lowerChar {c : Char} (h : '/' ∈ lowerChar c) : c = '/' := by
  rcases lowerChar_cases c with hown | hdot | ⟨r, hr, hin, hrun⟩
  · rw [hown, List.mem_singleton] at h
    exact h.symm
  · rw [hdot] at h
    exact absurd h (by decide)
  · rw [hrun, List.mem_singleton] at h
    obtain ⟨hnat, hslash, -⟩ := toNat_small hr hin
    rw [← h] at hnat
    omega

theorem lowerChar_ne_nil (c : Char) : lowerChar c ≠ [] := by
  rcases lowerChar_cases c with h | h | ⟨_, _, _, h⟩ <;> simp [h]

/-! ### Texts -/

/-- The small sigma for both of its forms. -/
def plainSigma (c : Char) : Char := if c = 'ς' then 'σ' else c

/-- The small letters of a character, the two forms of the small sigma being one. -/
def foldChar (c : Char) : List Char := (lowerChar c).map plainSigma

/-- A text without its case. -/
def fold (s : String) : List Char := s.toList.flatMap foldChar

theorem foldChar_ne_nil (c : Char) : foldChar c ≠ [] := by simp [foldChar, lowerChar_ne_nil]

/-- Lower case, but for the two forms of the small sigma, is a matter of single characters. -/
theorem map_lowerFrom :
    ∀ before cs : List Char, (lowerFrom before cs).map plainSigma = cs.flatMap foldChar
  | _, [] => rfl
  | before, c :: cs => by
    rw [lowerFrom, List.map_append, map_lowerFrom (c :: before) cs, List.flatMap_cons]
    congr 1
    by_cases hc : c = 'Σ'
    · subst hc
      have hsigma : foldChar 'Σ' = ['σ'] := by decide +kernel
      rw [if_pos rfl, hsigma]
      split <;> rfl
    · rw [if_neg hc, foldChar]

theorem map_lower (s : String) : (lower s).toList.map plainSigma = fold s := by
  rw [lower, String.toList_ofList, map_lowerFrom, fold]

/-- What has no case left stays as it is. -/
theorem foldChar_of_mem {c y : Char} (h : y ∈ foldChar c) : foldChar y = [y] := by
  obtain ⟨z, hz, rfl⟩ := List.mem_map.1 h
  by_cases hsigma : z = 'ς'
  · subst hsigma
    decide +kernel
  · have hplain : plainSigma z = z := if_neg hsigma
    rw [hplain, foldChar, lowerChar_of_mem hz, List.map_singleton, hplain]

/-- A text whose characters have no case is folded as it is. -/
theorem flatMap_foldChar {cs : List Char} (h : ∀ y ∈ cs.map plainSigma, foldChar y = [y]) :
    cs.flatMap foldChar = cs.map plainSigma := by
  induction cs with
  | nil => rfl
  | cons c cs ih =>
    rw [List.map_cons, List.forall_mem_cons] at h
    rw [List.flatMap_cons, List.map_cons, ih h.2, ← List.singleton_append]
    congr 1
    by_cases hsigma : c = 'ς'
    · subst hsigma
      decide +kernel
    · have hplain : plainSigma c = c := if_neg hsigma
      rw [← h.1, hplain]

/-- Lower case makes no slashes. -/
theorem slash_of_mem_lowerFrom : ∀ {before cs : List Char}, '/' ∈ lowerFrom before cs → '/' ∈ cs
  | _, [], h => h
  | before, c :: cs, h => by
    rw [lowerFrom, List.mem_append] at h
    rcases h with h | h
    · by_cases hc : c = 'Σ'
      · rw [if_pos hc, List.mem_singleton] at h
        split at h <;> exact absurd h (by decide)
      · rw [if_neg hc] at h
        rw [slash_of_mem_lowerChar h]
        exact List.mem_cons_self
    · exact List.mem_cons_of_mem _ (slash_of_mem_lowerFrom h)

end Text
end Stencil
