/-
# JSON text is read back

A value that is written is read back as it was: strings with any characters, and
numbers and nesting within the limits of the reader. Doubles go through decimal text
and may come back as other doubles, so a value is read back up to what its doubles
are read as.

Both halves of reading go from left to right and are compared on a text with
something after it: the scanner on the characters of a value followed by a character
that does not belong to it, the builder on the tokens of a value followed by any
others.

Key definitions: `Json.Every`, `Json.mapDoubles`, `Json.Readable`, `Json.reread`.
Key theorems: `Json.lex_chars`, `Json.build_tokens`, `Json.parse?_render`.
-/
import Stencil.Json.Printer
import Stencil.Json.Reader

namespace Stencil
namespace Json

mutual

/-- The scalars in a value, from left to right. -/
def leaves : Json → List Json
  | .arr items => leavesItems items
  | .obj members => leavesMembers members
  | j => [j]

/-- The scalars in the items of an array. -/
def leavesItems : List Json → List Json
  | [] => []
  | j :: rest => leaves j ++ leavesItems rest

/-- The scalars in the members of an object. -/
def leavesMembers : List (String × Json) → List Json
  | [] => []
  | (_, j) :: rest => leaves j ++ leavesMembers rest

end

/-- The scalars in a value all satisfy the condition. -/
def Every (P : Json → Prop) (j : Json) : Prop := ∀ x ∈ j.leaves, P x

section
variable {P : Json → Prop}

theorem mem_leavesItems {x : Json} {items : List Json} :
    x ∈ leavesItems items ↔ ∃ j ∈ items, x ∈ j.leaves := by
  induction items with
  | nil => simp [leavesItems]
  | cons j rest ih => simp [leavesItems, ih]

theorem mem_leavesMembers {x : Json} {members : List (String × Json)} :
    x ∈ leavesMembers members ↔ ∃ m ∈ members, x ∈ m.2.leaves := by
  induction members with
  | nil => simp [leavesMembers]
  | cons m rest ih => simp [leavesMembers, ih]

@[simp] theorem every_arr (items : List Json) :
    (Json.arr items).Every P ↔ ∀ j ∈ items, j.Every P := by
  simp only [Every, leaves, mem_leavesItems]
  exact ⟨fun h j hj x hx => h x ⟨j, hj, hx⟩, fun h x ⟨j, hj, hx⟩ => h j hj x hx⟩

@[simp] theorem every_obj (members : List (String × Json)) :
    (Json.obj members).Every P ↔ ∀ m ∈ members, m.2.Every P := by
  simp only [Every, leaves, mem_leavesMembers]
  exact ⟨fun h m hm x hx => h x ⟨m, hm, hx⟩, fun h x ⟨m, hm, hx⟩ => h m hm x hx⟩

@[simp] theorem every_null : Json.null.Every P ↔ P .null := by simp [Every, leaves]

@[simp] theorem every_bool (b : Bool) : (Json.bool b).Every P ↔ P (.bool b) := by
  simp [Every, leaves]

@[simp] theorem every_int (n : Int) : (Json.int n).Every P ↔ P (.int n) := by simp [Every, leaves]

@[simp] theorem every_double (x : Float) : (Json.double x).Every P ↔ P (.double x) := by
  simp [Every, leaves]

@[simp] theorem every_str (s : String) : (Json.str s).Every P ↔ P (.str s) := by
  simp [Every, leaves]

end

mutual

/-- The value with other doubles. -/
def mapDoubles (f : Float → Float) : Json → Json
  | .double x => .double (f x)
  | .arr items => .arr (mapItems f items)
  | .obj members => .obj (mapMembers f members)
  | j => j

/-- The items of an array with other doubles. -/
def mapItems (f : Float → Float) : List Json → List Json
  | [] => []
  | j :: rest => mapDoubles f j :: mapItems f rest

/-- The members of an object with other doubles. -/
def mapMembers (f : Float → Float) : List (String × Json) → List (String × Json)
  | [] => []
  | (name, j) :: rest => (name, mapDoubles f j) :: mapMembers f rest

end

mutual

/-- The depth does not depend on the doubles. -/
theorem depth_mapDoubles (f : Float → Float) : ∀ j : Json, (j.mapDoubles f).depth = j.depth
  | .arr items => by rw [mapDoubles, depth, depth, depthItems_mapItems f items]
  | .obj members => by rw [mapDoubles, depth, depth, depthMembers_mapMembers f members]
  | .null | .bool _ | .int _ | .double _ | .str _ => rfl

theorem depthItems_mapItems (f : Float → Float) :
    ∀ items : List Json, depthItems (mapItems f items) = depthItems items
  | [] => rfl
  | j :: rest => by
    rw [mapItems, depthItems, depthItems, depth_mapDoubles f j, depthItems_mapItems f rest]

theorem depthMembers_mapMembers (f : Float → Float) :
    ∀ members : List (String × Json), depthMembers (mapMembers f members) = depthMembers members
  | [] => rfl
  | (_, j) :: rest => by
    rw [mapMembers, depthMembers, depthMembers, depth_mapDoubles f j,
      depthMembers_mapMembers f rest]

end

mutual

/-- The tokens of a value. -/
def tokens : Json → List Token
  | .null => [.null]
  | .bool b => [.bool b]
  | .int n => [.int n]
  | .double x => [.double x]
  | .str s => [.str s]
  | .arr items => [.openBracket] ++ itemTokens items ++ [.closeBracket]
  | .obj members => [.openBrace] ++ memberTokens members ++ [.closeBrace]

/-- The tokens of array items, divided by commas. -/
def itemTokens : List Json → List Token
  | [] => []
  | [j] => tokens j
  | j :: rest => tokens j ++ [.comma] ++ itemTokens rest

/-- The tokens of the members of an object, divided by commas. -/
def memberTokens : List (String × Json) → List Token
  | [] => []
  | [(name, j)] => [.str name, .colon] ++ tokens j
  | (name, j) :: rest => [.str name, .colon] ++ tokens j ++ [.comma] ++ memberTokens rest

end

/-- The text of a scalar is read as a scalar of the same kind. -/
def Readable : Json → Prop
  | .int n => -0x8000000000000000 ≤ n ∧ n ≤ 0xffffffffffffffff
  | .double x => ∃ y, number? (doubleChars x).reverse = some (.double y)
  | _ => True

/-- What the text of a double is read as. -/
def reread (x : Float) : Float :=
  match number? (doubleChars x).reverse with
  | some (.double y) => y
  | _ => x

/-! ### Scanning -/

/-- The tokens of a text from a state of the scanner on. -/
def lex (s : Scanner) (cs : List Char) : Option (List Token) :=
  (cs.foldlM Scanner.step s).bind Scanner.finish

theorem lex_cons (s : Scanner) (c : Char) (cs : List Char) :
    lex s (c :: cs) = (s.step c).bind fun t => lex t cs := by
  rw [lex, List.foldlM_cons]
  exact Option.bind_assoc ..

theorem lex_append {s t : Scanner} {cs : List Char} (h : cs.foldlM Scanner.step s = some t)
    (rest : List Char) : lex s (cs ++ rest) = lex t rest := by
  rw [lex, List.foldlM_append, h]
  rfl

/-- What comes next does not belong to a word or a number. -/
def Apart (rest : List Char) : Prop :=
  ∀ c ∈ rest.head?, isNumeral c = false ∧ c.isAlpha = false

variable {done : List Token} {rest : List Char}

/-- A number ends where it can be read and something else follows. -/
theorem lex_number {read : List Char} {t : Token} (h : number? read = some t) (hrest : Apart rest) :
    lex ⟨done, .number read⟩ rest = lex ⟨t :: done, .nothing⟩ rest := by
  cases rest with
  | nil => simp [lex, Scanner.finish, h]
  | cons c cs =>
    have hc := (hrest c rfl).1
    rw [lex_cons, lex_cons]
    simp [Scanner.step, hc, h]

/-- A word ends where it can be read and something else follows. -/
theorem lex_word (read : List Char) {t : Token} (h : word? read = some t) (hrest : Apart rest) :
    lex ⟨done, .word read⟩ rest = lex ⟨t :: done, .nothing⟩ rest := by
  cases rest with
  | nil => simp [lex, Scanner.finish, h]
  | cons c cs =>
    have hc := (hrest c rfl).2
    rw [lex_cons, lex_cons]
    simp [Scanner.step, hc, h]

/-! ### Numbers -/

theorem isNumeral_of_isDigit {c : Char} (h : c.isDigit = true) : isNumeral c = true := by
  simp [isNumeral, h]

theorem isNumeral_of_mem_takeWhile {c : Char} {cs : List Char} (h : c ∈ cs.takeWhile Char.isDigit) :
    isNumeral c = true := isNumeral_of_isDigit (List.all_eq_true.1 List.all_takeWhile c h)

theorem isNumeral_of_exponent? {cs : List Char} {e : Int}
    (h : Decimal.Literal.exponent? cs = some e) :
    ∀ c ∈ cs, isNumeral c = true := by
  unfold Decimal.Literal.exponent? at h
  split at h
  rename_i sign digits hsplit
  split at h
  · cases h
  · rename_i hdigits
    simp only [Bool.or_eq_true, Bool.not_eq_true', not_or, Bool.not_eq_false,
      List.all_eq_true] at hdigits
    have hall : ∀ c ∈ digits, isNumeral c = true :=
      fun c hc => isNumeral_of_isDigit (hdigits.2 c hc)
    split at hsplit
    · cases hsplit
      exact List.forall_mem_cons.2 ⟨rfl, hall⟩
    · cases hsplit
      exact List.forall_mem_cons.2 ⟨rfl, hall⟩
    · cases hsplit
      exact hall

theorem isNumeral_of_mark {c : Char} (h : c = 'e' ∨ c = 'E') : isNumeral c = true := by
  rcases h with rfl | rfl <;> rfl

theorem isNumeral_of_tail? {negative : Bool} {whole cs : List Char} {l : Decimal.Literal}
    (h : Decimal.Literal.tail? negative whole cs = some l) : ∀ c ∈ cs, isNumeral c = true := by
  unfold Decimal.Literal.tail? at h
  split at h
  · exact nofun
  · rename_i rest
    refine List.forall_mem_cons.2 ⟨rfl, ?_⟩
    have hsplit := List.takeWhile_append_dropWhile (p := Char.isDigit) (l := rest)
    by_cases hempty : (rest.takeWhile Char.isDigit).isEmpty = true
    · rw [if_pos hempty] at h
      cases h
    · -- The digits after the point, then an exponent if there is one.
      rw [if_neg hempty] at h
      rw [← hsplit, List.forall_mem_append]
      refine ⟨fun c hc => isNumeral_of_mem_takeWhile hc, ?_⟩
      cases hdrop : rest.dropWhile Char.isDigit with
      | nil => exact nofun
      | cons c cs =>
        rw [hdrop] at h
        dsimp only at h
        split at h
        · rename_i hmark
          obtain ⟨e, he, -⟩ := Option.map_eq_some_iff.1 h
          exact List.forall_mem_cons.2 ⟨isNumeral_of_mark hmark, isNumeral_of_exponent? he⟩
        · cases h
  · split at h
    · rename_i hmark
      obtain ⟨e, he, -⟩ := Option.map_eq_some_iff.1 h
      exact List.forall_mem_cons.2 ⟨isNumeral_of_mark hmark, isNumeral_of_exponent? he⟩
    · cases h

/-- A literal consists of characters of number literals, and starts with a digit or a
minus. -/
theorem isNumeral_of_ofChars? {cs : List Char} {l : Decimal.Literal}
    (h : Decimal.Literal.ofChars? cs = some l) :
    (∃ c rest, cs = c :: rest ∧ (c.isDigit || c == '-') = true) ∧ ∀ c ∈ cs, isNumeral c = true := by
  unfold Decimal.Literal.ofChars? at h
  split at h
  rename_i negative ds hsign
  have hdigits : (∃ c rest, ds = c :: rest ∧ c.isDigit = true) ∧ ∀ c ∈ ds, isNumeral c = true := by
    have hsplit := List.takeWhile_append_dropWhile (p := Char.isDigit) (l := ds)
    cases hwhole : ds.takeWhile Char.isDigit with
    | nil =>
      rw [hwhole] at h
      cases h
    | cons d whole =>
      have htail : Decimal.Literal.tail? negative (d :: whole) (ds.dropWhile Char.isDigit) =
          some l := by
        rw [hwhole] at h
        dsimp only at h
        split at h
        · cases h
        · cases h
        · exact h
      have hd : d ∈ ds.takeWhile Char.isDigit := hwhole ▸ List.mem_cons_self
      refine ⟨⟨d, whole ++ ds.dropWhile Char.isDigit, ?_,
        List.all_eq_true.1 List.all_takeWhile d hd⟩, ?_⟩
      · rw [hwhole] at hsplit
        exact hsplit.symm
      · rw [← hsplit, List.forall_mem_append]
        exact ⟨fun c hc => isNumeral_of_mem_takeWhile hc, isNumeral_of_tail? htail⟩
  split at hsign
  · cases hsign
    exact ⟨⟨'-', ds, rfl, rfl⟩, List.forall_mem_cons.2 ⟨rfl, hdigits.2⟩⟩
  · cases hsign
    obtain ⟨⟨c, rest, hc, hdigit⟩, hall⟩ := hdigits
    exact ⟨⟨c, rest, hc, by simp [hdigit]⟩, hall⟩

theorem start_number {c : Char} (h : (c.isDigit || c == '-') = true) :
    Scanner.start done c = some ⟨done, .number [c]⟩ := by
  have hspace : isSpace c = false := by
    cases hs : isSpace c with
    | false => rfl
    | true =>
      simp only [isSpace, Bool.or_eq_true, beq_iff_eq] at hs
      rcases hs with ((rfl | rfl) | rfl) | rfl <;> cases h
  have hquote : c ≠ '"' := by
    rintro rfl
    cases h
  rw [Scanner.start, hspace, if_neg hquote, h]
  rfl

theorem foldlM_number : ∀ {cs : List Char} (read : List Char), (∀ c ∈ cs, isNumeral c = true) →
    cs.foldlM Scanner.step ⟨done, .number read⟩ = some ⟨done, .number (cs.reverse ++ read)⟩
  | [], _, _ => rfl
  | c :: cs, read, h => by
    obtain ⟨hc, hcs⟩ := List.forall_mem_cons.1 h
    have hstep : Scanner.step ⟨done, .number read⟩ c = some ⟨done, .number (c :: read)⟩ := by
      simp [Scanner.step, hc]
    rw [List.foldlM_cons, hstep]
    simpa using foldlM_number (c :: read) hcs

/-- A number that can be read. -/
theorem lex_numeral {cs : List Char} {t : Token} (h : number? cs.reverse = some t)
    (hrest : Apart rest) :
    lex ⟨done, .nothing⟩ (cs ++ rest) = lex ⟨t :: done, .nothing⟩ rest := by
  obtain ⟨l, hl, -⟩ := Option.bind_eq_some_iff.1 h
  rw [List.reverse_reverse] at hl
  obtain ⟨⟨c, tail, rfl, hc⟩, hall⟩ := isNumeral_of_ofChars? hl
  have hstep : Scanner.step ⟨done, .nothing⟩ c = some ⟨done, .number [c]⟩ := start_number hc
  have hscan : (c :: tail).foldlM Scanner.step ⟨done, .nothing⟩ =
      some ⟨done, .number (c :: tail).reverse⟩ := by
    rw [List.foldlM_cons, hstep, List.reverse_cons]
    exact foldlM_number [c] (List.forall_mem_cons.1 hall).2
  rw [lex_append hscan, lex_number h hrest]

theorem value_toDigits (n : Nat) : Decimal.value (Nat.toDigits 10 n) = n :=
  Nat.ofDigitChars_ten_toDigits

/-- No number but zero starts with a zero. -/
theorem head?_toDigits (n : Nat) (h : 0 < n) : (Nat.toDigits 10 n).head? ≠ some '0' := by
  induction n using Nat.strongRecOn with
  | ind n ih =>
    by_cases hn : n < 10
    · rw [Nat.toDigits_of_lt_base hn]
      simp only [List.head?_cons, ne_eq, Option.some.injEq, Nat.digitChar_eq_zero]
      omega
    · have hpos : 0 < n / 10 := by omega
      rw [Nat.toDigits_of_base_le (by decide) (by omega), List.head?_append]
      cases hdigits : (Nat.toDigits 10 (n / 10)).head? with
      | none => exact absurd (List.head?_eq_none_iff.1 hdigits) Nat.toDigits_ne_nil
      | some c =>
        rw [Option.some_or, ← hdigits]
        exact ih (n / 10) (by omega) hpos

section
variable {n : Nat}

theorem takeWhile_toDigits : (Nat.toDigits 10 n).takeWhile Char.isDigit = Nat.toDigits 10 n := by
  have hall : (Nat.toDigits 10 n ++ []).takeWhile Char.isDigit =
      Nat.toDigits 10 n ++ [].takeWhile Char.isDigit :=
    List.takeWhile_append_of_pos fun _ hc => Nat.isDigit_of_mem_toDigits (by decide) (by decide) hc
  simpa using hall

theorem dropWhile_toDigits : (Nat.toDigits 10 n).dropWhile Char.isDigit = [] := by
  have hall : (Nat.toDigits 10 n ++ []).dropWhile Char.isDigit = [].dropWhile Char.isDigit :=
    List.dropWhile_append_of_pos fun _ hc => Nat.isDigit_of_mem_toDigits (by decide) (by decide) hc
  simpa using hall

end

/-- Digits alone, after the sign, are the whole part of a literal. -/
theorem ofChars?_toDigits (negative : Bool) (n : Nat) :
    Decimal.Literal.ofChars? ((if negative then ['-'] else []) ++ Nat.toDigits 10 n) =
      some ⟨negative, Nat.toDigits 10 n, [], none, true⟩ := by
  unfold Decimal.Literal.ofChars?
  split
  rename_i sign ds hsign
  obtain ⟨rfl, rfl⟩ : negative = sign ∧ Nat.toDigits 10 n = ds := by
    cases negative with
    | true =>
      cases hsign
      exact ⟨rfl, rfl⟩
    | false =>
      split at hsign
      · rename_i rest hminus
        have hdigits : Nat.toDigits 10 n = '-' :: rest := hminus
        have hmem : '-' ∈ Nat.toDigits 10 n := hdigits ▸ List.mem_cons_self
        cases Nat.isDigit_of_mem_toDigits (by decide) (by decide) hmem
      · cases hsign
        exact ⟨rfl, rfl⟩
  rw [takeWhile_toDigits, dropWhile_toDigits]
  dsimp only
  by_cases hn : n = 0
  · rw [hn]
    rfl
  · have hhead := head?_toDigits n (Nat.pos_of_ne_zero hn)
    split
    · rename_i hnil
      exact absurd hnil Nat.toDigits_ne_nil
    · rename_i hzero
      exact absurd (by rw [hzero]; rfl) hhead
    · rfl

/-- An integer that fits is read exactly. -/
theorem number?_intChars {n : Int} (h : Readable (.int n)) :
    number? (intChars n).reverse = some (.int n) := by
  obtain ⟨hlow, hhigh⟩ := h
  unfold number?
  rw [List.reverse_reverse]
  cases n with
  | ofNat n =>
    have hliteral : Decimal.Literal.ofChars? (intChars (.ofNat n)) = _ := ofChars?_toDigits false n
    rw [hliteral]
    have hfits : n ≤ Decimal.limit := Int.ofNat_le.1 hhigh
    simp [Decimal.Literal.value?, value_toDigits, hfits]
  | negSucc n =>
    have hliteral : Decimal.Literal.ofChars? (intChars (.negSucc n)) = _ :=
      ofChars?_toDigits true (n + 1)
    rw [hliteral]
    have hfits : n + 1 ≤ 0x8000000000000000 := by omega
    simp [Decimal.Literal.value?, value_toDigits, hfits]
    omega

/-! ### Strings -/

theorem hexDigit?_digitChar : ∀ d < 16, hexDigit? (Nat.digitChar d) = some d := by decide

/-- A control character is written as its code. -/
theorem foldlM_control (read : List Char) {n : Nat} (hn : n < 0x20) :
    ['\\', 'u', '0', '0', Nat.digitChar (n / 16), Nat.digitChar (n % 16)].foldlM Scanner.step
      ⟨done, .string read⟩ = some ⟨done, .string (Char.ofNat n :: read)⟩ := by
  have hhigh : hexDigit? (Nat.digitChar (n / 16)) = some (n / 16) :=
    hexDigit?_digitChar _ (by omega)
  have hlow : hexDigit? (Nat.digitChar (n % 16)) = some (n % 16) := hexDigit?_digitChar _ (by omega)
  have hvalue : 16 * (n / 16) + n % 16 = n := Nat.div_add_mod n 16
  have hzeros : ['\\', 'u', '0', '0'].foldlM Scanner.step ⟨done, .string read⟩ =
      some ⟨done, .hex read none 2 0⟩ := rfl
  have hunit : unit? read none n = some (.string (Char.ofNat n :: read)) := by
    have hpair : isHigh n = false ∧ isLow n = false := by
      constructor
      · simp only [isHigh, Bool.and_eq_false_iff, decide_eq_false_iff_not]
        omega
      · simp only [isLow, Bool.and_eq_false_iff, decide_eq_false_iff_not]
        omega
    simp [unit?, hpair]
  show (['\\', 'u', '0', '0'] ++ [Nat.digitChar (n / 16), Nat.digitChar (n % 16)]).foldlM _ _ = _
  rw [List.foldlM_append, hzeros]
  simp [Scanner.step, hhigh, hlow, hvalue, hunit]

/-- What stands for one character of a string is read as that character. -/
theorem foldlM_escape (read : List Char) (c : Char) :
    (escape c).foldlM Scanner.step ⟨done, .string read⟩ = some ⟨done, .string (c :: read)⟩ := by
  by_cases hshort : c = '"' ∨ c = '\\' ∨ c = '\x08' ∨ c = '\t' ∨ c = '\n' ∨ c = '\x0c' ∨ c = '\r'
  · rcases hshort with rfl | rfl | rfl | rfl | rfl | rfl | rfl <;> rfl
  · simp only [not_or] at hshort
    by_cases hcontrol : c.toNat < 0x20
    · have hcode : escape c =
          ['\\', 'u', '0', '0', Nat.digitChar (c.toNat / 16), Nat.digitChar (c.toNat % 16)] := by
        simp [escape, hshort, hcontrol]
      rw [hcode, foldlM_control read hcontrol, Char.ofNat_toNat]
    · have hcode : escape c = [c] := by simp [escape, hshort, hcontrol]
      rw [hcode]
      simp [Scanner.step, hshort.1, hshort.2.1, hcontrol]

/-- A string in quotes. -/
theorem lex_quoted (s : String) :
    lex ⟨done, .nothing⟩ (quoted s ++ rest) = lex ⟨.str s :: done, .nothing⟩ rest := by
  have hchars : ∀ (cs read : List Char),
      (cs.flatMap escape).foldlM Scanner.step ⟨done, .string read⟩ =
        some ⟨done, .string (cs.reverse ++ read)⟩ := by
    intro cs
    induction cs with
    | nil => exact fun _ => rfl
    | cons c cs ih =>
      intro read
      rw [List.flatMap_cons, List.foldlM_append, foldlM_escape]
      simpa using ih (c :: read)
  refine lex_append ?_ rest
  rw [quoted, List.append_assoc, List.foldlM_append]
  show (s.toList.flatMap escape ++ ['"']).foldlM Scanner.step ⟨done, .string []⟩ = _
  rw [List.foldlM_append, hchars]
  simp [Scanner.step]

/-! ### Values -/

theorem lex_punctuation {c : Char} {t : Token}
    (h : Scanner.start done c = some ⟨t :: done, .nothing⟩) :
    lex ⟨done, .nothing⟩ (c :: rest) = lex ⟨t :: done, .nothing⟩ rest := by
  rw [lex_cons]
  show (Scanner.start done c).bind _ = _
  rw [h]
  rfl

theorem apart_cons {c : Char} (h : isNumeral c = false ∧ c.isAlpha = false) (cs : List Char) :
    Apart (c :: cs) := by
  intro d hd
  cases hd
  exact h

mutual

/-- The scanner on the text of a value. -/
theorem lex_chars : ∀ (j : Json) (done : List Token) (rest : List Char), j.Every Readable →
    Apart rest → lex ⟨done, .nothing⟩ (j.chars ++ rest) =
      lex ⟨(j.mapDoubles reread).tokens.reverse ++ done, .nothing⟩ rest
  | .null, _, _, _, hrest => lex_word ['l', 'l', 'u', 'n'] rfl hrest
  | .bool true, _, _, _, hrest => lex_word ['e', 'u', 'r', 't'] rfl hrest
  | .bool false, _, _, _, hrest => lex_word ['e', 's', 'l', 'a', 'f'] rfl hrest
  | .int n, done, rest, h, hrest => lex_numeral (number?_intChars ((every_int n).1 h)) hrest
  | .double x, done, rest, h, hrest => by
    obtain ⟨y, hy⟩ : Readable (.double x) := (every_double x).1 h
    have hreread : reread x = y := by simp [reread, hy]
    rw [mapDoubles, hreread]
    exact lex_numeral hy hrest
  | .str s, done, rest, _, _ => lex_quoted s
  | .arr items, done, rest, h, _ => by
    have hchars : (Json.arr items).chars ++ rest = '[' :: (itemChars items ++ ']' :: rest) := by
      simp [chars]
    rw [hchars, lex_punctuation (t := .openBracket) rfl,
      lex_itemChars items _ _ ((every_arr items).1 h) (apart_cons ⟨rfl, rfl⟩ rest),
      lex_punctuation (t := .closeBracket) rfl]
    simp [mapDoubles, tokens]
  | .obj members, done, rest, h, _ => by
    have hchars : (Json.obj members).chars ++ rest =
        '\x7b' :: (memberChars members ++ '\x7d' :: rest) := by
      simp [chars]
    rw [hchars, lex_punctuation (t := .openBrace) rfl,
      lex_memberChars members _ _ ((every_obj members).1 h) (apart_cons ⟨rfl, rfl⟩ rest),
      lex_punctuation (t := .closeBrace) rfl]
    simp [mapDoubles, tokens]

theorem lex_itemChars : ∀ (items : List Json) (done : List Token) (rest : List Char),
    (∀ j ∈ items, j.Every Readable) → Apart rest →
    lex ⟨done, .nothing⟩ (itemChars items ++ rest) =
      lex ⟨(itemTokens (mapItems reread items)).reverse ++ done, .nothing⟩ rest
  | [], _, _, _, _ => rfl
  | [j], done, rest, h, hrest => lex_chars j done rest (h j List.mem_cons_self) hrest
  | j :: k :: items, done, rest, h, hrest => by
    rw [List.forall_mem_cons] at h
    have hchars : itemChars (j :: k :: items) ++ rest =
        j.chars ++ ',' :: (itemChars (k :: items) ++ rest) := by simp [itemChars]
    rw [hchars, lex_chars j done _ h.1 (apart_cons ⟨rfl, rfl⟩ _), lex_punctuation (t := .comma) rfl,
      lex_itemChars (k :: items) _ rest h.2 hrest]
    simp [mapItems, itemTokens]

theorem lex_memberChars : ∀ (members : List (String × Json)) (done : List Token) (rest : List Char),
    (∀ m ∈ members, m.2.Every Readable) → Apart rest →
    lex ⟨done, .nothing⟩ (memberChars members ++ rest) =
      lex ⟨(memberTokens (mapMembers reread members)).reverse ++ done, .nothing⟩ rest
  | [], _, _, _, _ => rfl
  | [(name, j)], done, rest, h, hrest => by
    rw [List.forall_mem_singleton] at h
    have hchars : memberChars [(name, j)] ++ rest = quoted name ++ ':' :: (j.chars ++ rest) := by
      simp [memberChars]
    rw [hchars, lex_quoted, lex_punctuation (t := .colon) rfl, lex_chars j _ rest h hrest]
    simp [mapMembers, memberTokens]
  | (name, j) :: m :: members, done, rest, h, hrest => by
    rw [List.forall_mem_cons] at h
    have hchars : memberChars ((name, j) :: m :: members) ++ rest =
        quoted name ++ ':' :: (j.chars ++ ',' :: (memberChars (m :: members) ++ rest)) := by
      simp [memberChars]
    rw [hchars, lex_quoted, lex_punctuation (t := .colon) rfl,
      lex_chars j _ _ h.1 (apart_cons ⟨rfl, rfl⟩ _), lex_punctuation (t := .comma) rfl,
      lex_memberChars (m :: members) _ rest h.2 hrest]
    simp [mapMembers, memberTokens]

end

/-- The tokens of the text of a value. -/
theorem tokens?_chars {j : Json} (h : j.Every Readable) :
    tokens? j.chars = some (j.mapDoubles reread).tokens := by
  have hlex := lex_chars j [] [] h nofun
  simp only [List.append_nil] at hlex
  show lex ⟨[], .nothing⟩ j.chars = _
  rw [hlex]
  simp [lex, Scanner.finish]

/-! ### Building -/

/-- A value does not start with a closing bracket, so it may be the first item. -/
theorem foldlM_item (stack : List Frame) (j : Json) (ts : List Token) :
    (j.tokens ++ ts).foldlM Builder.step ⟨stack, .item⟩ =
      (j.tokens ++ ts).foldlM Builder.step ⟨stack, .value⟩ := by
  cases j <;> rfl

/-- The first name of an object may be any. -/
theorem foldlM_member (stack : List Frame) (name : String) (ts : List Token) :
    (.str name :: ts).foldlM Builder.step ⟨stack, .member⟩ =
      (.str name :: ts).foldlM Builder.step ⟨stack, .name⟩ := rfl

theorem foldlM_nest {stack : List Frame} (h : stack.length < maxDepth) (frame : Frame)
    (expect : Expect)
    {t : Token} (ht : Builder.value stack t = Builder.nest frame stack expect) (ts : List Token) :
    (t :: ts).foldlM Builder.step ⟨stack, .value⟩ =
      ts.foldlM Builder.step ⟨frame :: stack, expect⟩ := by
  have hstep : Builder.step ⟨stack, .value⟩ t = some ⟨frame :: stack, expect⟩ :=
    ht.trans (if_pos h)
  rw [List.foldlM_cons, hstep]
  rfl

theorem arr_tokens_append (items : List Json) (ts : List Token) :
    (Json.arr items).tokens ++ ts = .openBracket :: (itemTokens items ++ .closeBracket :: ts) := by
  simp [tokens]

theorem obj_tokens_append (members : List (String × Json)) (ts : List Token) :
    (Json.obj members).tokens ++ ts =
      .openBrace :: (memberTokens members ++ .closeBrace :: ts) := by
  simp [tokens]

theorem itemTokens_append (j k : Json) (items : List Json) (ts : List Token) :
    itemTokens (j :: k :: items) ++ ts = j.tokens ++ .comma :: (itemTokens (k :: items) ++ ts) := by
  simp [itemTokens]

theorem memberTokens_append (name : String) (j : Json) (m : String × Json)
    (members : List (String × Json)) (ts : List Token) :
    memberTokens ((name, j) :: m :: members) ++ ts =
      .str name :: .colon :: (j.tokens ++ .comma :: (memberTokens (m :: members) ++ ts)) := by
  simp [memberTokens]

/-- Where there is room for an array, it is opened, and its first item is read like the others. -/
theorem foldlM_open_arr {stack : List Frame} (h : stack.length < maxDepth) (j : Json)
    (items : List Json) (ts : List Token) :
    ((Json.arr (j :: items)).tokens ++ ts).foldlM Builder.step ⟨stack, .value⟩ =
      (itemTokens (j :: items) ++ .closeBracket :: ts).foldlM Builder.step
      ⟨.arr [] :: stack, .value⟩ := by
  obtain ⟨us, hus⟩ : ∃ us, itemTokens (j :: items) = j.tokens ++ us := by
    cases items with
    | nil => exact ⟨[], by simp [itemTokens]⟩
    | cons k items => exact ⟨.comma :: itemTokens (k :: items), by simp [itemTokens]⟩
  rw [arr_tokens_append, foldlM_nest h (.arr []) .item rfl, hus, List.append_assoc, foldlM_item]

/-- Where there is room for an object, it is opened, and its first name is read like the others. -/
theorem foldlM_open_obj {stack : List Frame} (h : stack.length < maxDepth) (m : String × Json)
    (members : List (String × Json)) (ts : List Token) :
    ((Json.obj (m :: members)).tokens ++ ts).foldlM Builder.step ⟨stack, .value⟩ =
      (memberTokens (m :: members) ++ .closeBrace :: ts).foldlM Builder.step
      ⟨.obj [] "" :: stack, .name⟩ := by
  obtain ⟨us, hus⟩ : ∃ us, memberTokens (m :: members) = .str m.1 :: us := by
    cases members with
    | nil => exact ⟨_, rfl⟩
    | cons k members => exact ⟨_, memberTokens.eq_3 m.1 m.2 (k :: members) nofun⟩
  rw [obj_tokens_append, foldlM_nest h (.obj [] "") .member rfl, hus, List.cons_append,
    foldlM_member]

mutual

/-- The builder on the tokens of a value: what was open before is open afterwards. -/
theorem build_tokens : ∀ (j : Json) (stack : List Frame) (ts : List Token),
    stack.length + j.depth ≤ maxDepth →
    (j.tokens ++ ts).foldlM Builder.step ⟨stack, .value⟩ = ts.foldlM Builder.step ⟨stack, .more j⟩
  | .null, _, _, _ | .bool _, _, _, _ | .int _, _, _, _ | .double _, _, _, _
  | .str _, _, _, _ => rfl
  | .arr items, stack, ts, h => by
    rw [depth] at h
    have hroom : stack.length < maxDepth := by omega
    cases items with
    | nil =>
      rw [arr_tokens_append, foldlM_nest hroom (.arr []) .item rfl]
      rfl
    | cons j items =>
      rw [foldlM_open_arr hroom, build_items (j :: items) [] stack ts (List.cons_ne_nil _ _) h]
      rfl
  | .obj members, stack, ts, h => by
    rw [depth] at h
    have hroom : stack.length < maxDepth := by omega
    cases members with
    | nil =>
      rw [obj_tokens_append, foldlM_nest hroom (.obj [] "") .member rfl]
      rfl
    | cons m members =>
      rw [foldlM_open_obj hroom, build_members (m :: members) [] "" stack ts
        (List.cons_ne_nil _ _) h]
      rfl

theorem build_items : ∀ (items acc : List Json) (stack : List Frame) (ts : List Token), items ≠ [] →
    stack.length + (depthItems items + 1) ≤ maxDepth →
    (itemTokens items ++ .closeBracket :: ts).foldlM Builder.step ⟨.arr acc :: stack, .value⟩ =
      ts.foldlM Builder.step ⟨stack, .more (.arr (acc.reverse ++ items))⟩
  | [], _, _, _, hne, _ => absurd rfl hne
  | [j], acc, stack, ts, _, h => by
    have hdepth : (Frame.arr acc :: stack).length + j.depth ≤ maxDepth := by
      simp only [depthItems, List.length_cons] at h ⊢
      omega
    rw [itemTokens, build_tokens j _ _ hdepth]
    simp [Builder.step, Builder.more]
  | j :: k :: items, acc, stack, ts, _, h => by
    have hdepth : (Frame.arr acc :: stack).length + j.depth ≤ maxDepth ∧
        stack.length + (depthItems (k :: items) + 1) ≤ maxDepth := by
      rw [depthItems] at h
      simp only [List.length_cons]
      omega
    rw [itemTokens_append, build_tokens j _ _ hdepth.1]
    show (itemTokens (k :: items) ++ .closeBracket :: ts).foldlM Builder.step
      ⟨.arr (j :: acc) :: stack, .value⟩ = _
    rw [build_items (k :: items) (j :: acc) stack ts (List.cons_ne_nil _ _) hdepth.2]
    simp

theorem build_members : ∀ (members acc : List (String × Json)) (old : String) (stack : List Frame)
    (ts : List Token), members ≠ [] → stack.length + (depthMembers members + 1) ≤ maxDepth →
    (memberTokens members ++ .closeBrace :: ts).foldlM Builder.step ⟨.obj acc old :: stack, .name⟩ =
      ts.foldlM Builder.step ⟨stack, .more (.obj (acc.reverse ++ members))⟩
  | [], _, _, _, _, hne, _ => absurd rfl hne
  | [(name, j)], acc, old, stack, ts, _, h => by
    have hdepth : (Frame.obj acc name :: stack).length + j.depth ≤ maxDepth := by
      simp only [depthMembers, List.length_cons] at h ⊢
      omega
    show (j.tokens ++ .closeBrace :: ts).foldlM Builder.step ⟨.obj acc name :: stack, .value⟩ = _
    rw [build_tokens j _ _ hdepth]
    simp [Builder.step, Builder.more]
  | (name, j) :: m :: members, acc, old, stack, ts, _, h => by
    have hdepth : (Frame.obj acc name :: stack).length + j.depth ≤ maxDepth ∧
        stack.length + (depthMembers (m :: members) + 1) ≤ maxDepth := by
      rw [depthMembers] at h
      simp only [List.length_cons]
      omega
    rw [memberTokens_append]
    show (j.tokens ++ Token.comma :: _).foldlM Builder.step ⟨.obj acc name :: stack, .value⟩ = _
    rw [build_tokens j _ _ hdepth.1]
    show (memberTokens (m :: members) ++ .closeBrace :: ts).foldlM Builder.step
      ⟨.obj ((name, j) :: acc) "" :: stack, .name⟩ = _
    rw [build_members (m :: members) ((name, j) :: acc) "" stack ts (List.cons_ne_nil _ _) hdepth.2]
    simp

end

/-- **A value that is written is read back**, with its doubles as they are read. -/
theorem parse?_render {j : Json} (hdepth : j.depth ≤ maxDepth) (h : j.Every Readable) :
    parse? j.render = some (j.mapDoubles reread) := by
  have hbuild := build_tokens (j.mapDoubles reread) [] [] (by simpa [depth_mapDoubles] using hdepth)
  rw [List.append_nil] at hbuild
  have htokens : ofTokens? (j.mapDoubles reread).tokens = some (j.mapDoubles reread) := by
    rw [ofTokens?, hbuild]
    rfl
  rw [parse?, render, String.toList_ofList, tokens?_chars h]
  exact htokens

end Json
end Stencil
