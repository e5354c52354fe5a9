/-
# Spellings of a path

A path is compared by its components and looked up step by step. Both pass over empty steps and
over dots inside of the path. They differ in the rest: a comparison takes a dot at the start for a
component and two dots for a name like any other, while a look-up stays where it is at the one and
goes up at the other. And the working directory has a path from the top, which a comparison knows
nothing of. So paths with the same components lead to the same place if they lead anywhere, but two
paths to one place may have different components.

Key definitions: `Path.names`, `Path.isDotted`, `Disk.lead`, `Disk.HasFile`.
Key theorems: `Path.same_iff`, `Disk.locate_eq_lead`, `Disk.place_eq_of_same`,
`Disk.same_iff_of_place_eq`.
-/
import Stencil.Proofs.Isolation

namespace Stencil

namespace Path

/-- The step is a name that a directory may hold, or goes up. -/
def isName (step : String) : Bool := step != "" && step != "."

/-- The steps of a path that lead elsewhere. -/
def names (path : String) : List String := (steps path).filter isName

/-- The path starts with a dot. -/
def isDotted (path : String) : Bool := (steps path).head? == some "."

/-- The component that a path starts with and that is no name. -/
def front (path : String) : List String :=
  if isDotted path then ["."] else if isAbsolute path then ["/"] else []

theorem components_eq (path : String) : components path = front path ++ names path := by
  have hname : isName = fun s => s != "" && s != "." := rfl
  unfold components front names isDotted
  rw [hname]
  cases hsteps : steps path with
  | nil => by_cases h : isAbsolute path = true <;> simp [h]
  | cons first rest =>
    by_cases hdot : first = "."
    · subst hdot
      simp
    · have hfirst : ¬ (((first :: rest).head? == some ".") = true) := by simp [hdot]
      rw [if_neg hfirst]
      split
      · rename_i heq
        cases heq
        exact absurd rfl hdot
      · by_cases h : isAbsolute path = true <;> simp [h]

theorem no_slash_of_mem_split {s : String} :
    ∀ {part cs : List Char}, '/' ∉ part → s ∈ split part cs → '/' ∉ s.toList
  | part, [], hpart, hs => by
    rw [split, List.mem_singleton] at hs
    simpa [hs] using hpart
  | part, c :: cs, hpart, hs => by
    unfold split at hs
    split at hs
    · rcases List.mem_cons.1 hs with rfl | hs
      · simpa using hpart
      · exact no_slash_of_mem_split List.not_mem_nil hs
    · rename_i hc
      refine no_slash_of_mem_split (fun hmem => ?_) hs
      rcases List.mem_cons.1 hmem with h | h
      · exact hc h.symm
      · exact hpart h

theorem slash_notMem_names (path : String) : "/" ∉ names path := by
  intro hmem
  have hsplit := (List.mem_filter.1 hmem).1
  exact no_slash_of_mem_split List.not_mem_nil hsplit (by decide)

theorem dot_notMem_names (path : String) : "." ∉ names path := by simp [names, isName]

/-- The component at the start of a path is none of the names of any. -/
theorem front_cases (path : String) :
    front path = [] ∨ ∃ x, front path = [x] ∧ ∀ q, x ∉ names q := by
  unfold front
  split
  · exact .inr ⟨".", rfl, dot_notMem_names⟩
  · split
    · exact .inr ⟨"/", rfl, slash_notMem_names⟩
    · exact .inl rfl

/-- Two paths are the same exactly if they start alike and have the same names. -/
theorem same_iff (p q : String) : same p q = true ↔ front p = front q ∧ names p = names q := by
  rw [same, beq_iff_eq, components_eq, components_eq]
  constructor
  · intro h
    rcases front_cases p with hp | ⟨x, hp, hx⟩ <;> rcases front_cases q with hq | ⟨y, hq, hy⟩ <;>
      rw [hp, hq] at h
    · exact ⟨hp.trans hq.symm, h⟩
    · have hmem : y ∈ names p := by
        rw [← List.nil_append (names p), h]
        exact List.mem_cons_self
      exact absurd hmem (hy p)
    · have hmem : x ∈ names q := by
        rw [← List.nil_append (names q), ← h]
        exact List.mem_cons_self
      exact absurd hmem (hx q)
    · obtain ⟨rfl, hnames⟩ := List.cons.inj h
      exact ⟨hp.trans hq.symm, hnames⟩
  · rintro ⟨hfront, hnames⟩
    rw [hfront, hnames]

/-- Of two paths that are the same, both go up or none does. -/
theorem up_mem_steps_iff_of_same {p q : String} (h : same p q = true) :
    ".." ∈ steps p ↔ ".." ∈ steps q := by
  have hnames : ∀ r : String, ".." ∈ names r ↔ ".." ∈ steps r := by
    intro r
    rw [names, List.mem_filter]
    exact and_iff_left rfl
  rw [← hnames p, ← hnames q, ((same_iff p q).1 h).2]

/-- A path from the top starts with an empty step. -/
theorem not_isDotted_of_isAbsolute {path : String} (h : isAbsolute path = true) :
    isDotted path = false := by
  unfold isAbsolute at h
  unfold isDotted steps
  cases hpath : path.toList with
  | nil => simp [hpath] at h
  | cons c cs =>
    have hc : c = '/' := by simpa [hpath] using h
    simp [split, hc]

theorem front_eq_iff (p q : String) :
    front p = front q ↔ isDotted p = isDotted q ∧ isAbsolute p = isAbsolute q := by
  unfold front
  cases hp : isAbsolute p <;> cases hq : isAbsolute q <;> cases hdp : isDotted p <;>
    cases hdq : isDotted q <;>
    simp_all [not_isDotted_of_isAbsolute]

end Path

namespace Disk

open Stencil.Path

/-- Where names lead, on a disk that has the directories on the way. -/
def lead (place : Place) (names : List String) : Place :=
  names.foldl (fun p name => if name = ".." then p.dropLast else p ++ [name]) place

/-- A step stays at a place, goes up or goes down. -/
theorem step_eq_ok {place next : Place} {name : String} (h : step place name = .ok next) :
    isName name = false ∧ next = place ∨ isName name = true ∧ next = lead place [name] := by
  unfold step at h
  unfold isName lead
  by_cases hstay : name = "" ∨ name = "."
  · rw [if_pos hstay] at h
    cases h
    exact .inl ⟨by rcases hstay with rfl | rfl <;> rfl, rfl⟩
  · rw [if_neg hstay] at h
    rw [not_or] at hstay
    refine .inr ⟨by simp [hstay], ?_⟩
    rw [List.foldl_cons, List.foldl_nil]
    by_cases hup : name = ".."
    · rw [if_pos hup] at h ⊢
      cases h
      rfl
    · rw [if_neg hup] at h ⊢
      split at h <;> cases h
      rfl

theorem walk_eq_lead {d : Disk} {q : Place} :
    ∀ {steps : List String} {p : Place}, d.walk p steps = .ok q →
    q = lead p (steps.filter isName)
  | [], p, h => by
    cases h
    rfl
  | name :: rest, p, h => by
    obtain ⟨-, next, hstep, hrest⟩ := walk_cons_eq_ok.1 h
    have ih := walk_eq_lead hrest
    rcases step_eq_ok hstep with ⟨hname, rfl⟩ | ⟨hname, rfl⟩
    · rw [List.filter_cons_of_neg (by simp [hname])]
      exact ih
    · rw [List.filter_cons_of_pos hname]
      exact ih

/-- Where a path leads is found from its names alone. -/
theorem locate_eq_lead {d : Disk} {path : String} {q : Place} (h : d.locate path = .ok q) :
    q = lead (start path) (names path) := walk_eq_lead (walk_of_locate h)

theorem lead_eq_append {names : List String} (h : ".." ∉ names) (p : Place) :
    lead p names = p ++ names := by
  induction names generalizing p with
  | nil => exact (List.append_nil p).symm
  | cons name names ih =>
    rw [List.mem_cons, not_or] at h
    have hlead : lead p (name :: names) = lead (p ++ [name]) names := by
      rw [lead, List.foldl_cons, if_neg fun hup => h.1 hup.symm]
      rfl
    rw [hlead, ih h.2, List.append_assoc]
    rfl

/-- Paths that are the same lead to the same place, if they lead anywhere. -/
theorem place_eq_of_same {d : Disk} {p q : String} {a b : Place} (h : same p q = true)
    (hp : d.locate p = .ok a) (hq : d.locate q = .ok b) : a = b := by
  obtain ⟨hfront, hnames⟩ := (same_iff p q).1 h
  have hstart : start p = start q := by rw [start, start, ((front_eq_iff p q).1 hfront).2]
  rw [locate_eq_lead hp, locate_eq_lead hq, hstart, hnames]

/-- Of two paths to one place that do not go up, the comparison misses those of which one starts
with a dot or at the top and the other does not. -/
theorem same_iff_of_place_eq {d : Disk} {p q : String} {a : Place} (hp : d.locate p = .ok a)
    (hq : d.locate q = .ok a) (hup : ".." ∉ steps p ∧ ".." ∉ steps q) :
    same p q = true ↔ isDotted p = isDotted q ∧ isAbsolute p = isAbsolute q := by
  have hplaces : start p ++ names p = start q ++ names q := by
    have hnames : ∀ {r : String}, ".." ∉ steps r → ".." ∉ names r :=
      fun hr hmem => hr (List.mem_filter.1 hmem).1
    rw [← lead_eq_append (hnames hup.1), ← lead_eq_append (hnames hup.2), ← locate_eq_lead hp,
      ← locate_eq_lead hq]
  rw [same_iff, front_eq_iff]
  refine ⟨fun h => h.1, fun h => ⟨h, ?_⟩⟩
  rw [start, start, h.2] at hplaces
  exact List.append_cancel_left hplaces

/-- The path leads to the place, and there is a file. -/
def HasFile (d : Disk) (path : String) (place : Place) : Prop :=
  d.locate path = .ok place ∧ ∃ content time, d.get? place = some (.file content time)

theorem HasFile.not_dir {d : Disk} {path : String} {place : Place} (h : d.HasFile path place) :
    d.get? place ≠ some .dir := by
  obtain ⟨-, content, time, hfile⟩ := h
  rw [hfile]
  intro he
  cases he

/-- The path of a file leads to another place if something without a slash is added to it. -/
theorem HasFile.locate_append_ne {d : Disk} {path added : String} {place : Place}
    (h : d.HasFile path place)
    (hne : added ≠ "") (hslash : '/' ∉ added.toList) : d.locate (path ++ added) ≠ .ok place := by
  intro hl
  have hpath : path ≠ "" := by
    rintro rfl
    cases h.1
  have hsame : d.locate (path ++ "") = .ok place := by
    rw [String.append_empty]
    exact h.1
  exact hne (locate_append_inj hpath hslash (by simp) hl hsame h.not_dir)

end Disk
end Stencil
