/-
# Tokens of generated code

Code inside a section is read token by token, and at each place the longest token is taken that any
rule finds there. The rules are those for blanks, comments, names, variables, numbers, literals, casts
and signs; a character that no rule starts with is a token by itself. What a sign is made of decides
whether two pieces of code may stand side by side: `-` before `-` is one token, not two.

Key definitions: `Token.rules`, `Token.munch`, `Token.tokens`, `Token.continuations`.
Key theorems: `Token.tokens_cons`, `Token.flatten_tokens`, `Token.munch_mark`.
-/
import Stencil.Text.Quoted

namespace Stencil
namespace Token

/-! ### Rules

Each rule gives the length of the longest token of its kind at the start of a text, and zero if there
is none. -/

/-- Blanks between tokens. -/
def isSpace (c : Char) : Bool := [' ', '\t', '\n', '\r'].contains c

/-- A character that starts a name. -/
def isInitial (c : Char) : Bool := c.isAlpha || c == '_' || 127 < c.toNat

/-- A character inside a name. -/
def isPart (c : Char) : Bool := isInitial c || c.isDigit

/-- How many characters at the start satisfy `p`. -/
def run (p : Char → Bool) (cs : List Char) : Nat := (cs.takeWhile p).length

def space (cs : List Char) : Nat := run isSpace cs

/-- Keywords and names, with the backslashes that qualify them. -/
def name : List Char → Nat
  | [] => 0
  | c :: cs => if isInitial c || c == '\\' then 1 + run (fun d => isPart d || d == '\\') cs else 0

def variableName : List Char → Nat
  | '$' :: c :: cs => if isInitial c then 2 + run isPart cs else 0
  | _ => 0

/-- Up to the end of a line or of the section. -/
def line : List Char → Nat
  | [] => 0
  | '?' :: '>' :: _ => 0
  | c :: cs => if c == '\n' || c == '\r' then 0 else 1 + line cs

/-- Up to the mark that closes a comment, or to the end of the text. -/
def remark : List Char → Nat
  | [] => 0
  | '*' :: '/' :: _ => 2
  | _ :: cs => 1 + remark cs

def comment : List Char → Nat
  | '#' :: '[' :: _ => 0
  | '#' :: cs => 1 + line cs
  | '/' :: '/' :: cs => 2 + line cs
  | '/' :: '*' :: cs => 2 + remark cs
  | _ => 0

/-- Digits, perhaps grouped. -/
def digits (cs : List Char) : Nat := run (fun c => c.isDigit || c == '_') cs

/-- A point and the digits after it. -/
def fraction : List Char → Nat
  | '.' :: cs => 1 + digits cs
  | _ => 0

/-- An exponent has at least one digit. -/
def exponent : List Char → Nat
  | mark :: cs =>
    let sign := match cs with
      | '+' :: _ => 1
      | '-' :: _ => 1
      | _ => 0
    let places := digits (cs.drop sign)
    if (mark == 'e' || mark == 'E') && 0 < places then 1 + sign + places else 0
  | [] => 0

/-- Numbers, with a digit before or after the point. -/
def number : List Char → Nat
  | '0' :: 'x' :: cs => 2 + run Char.isAlphanum cs
  | '0' :: 'b' :: cs => 2 + run Char.isDigit cs
  | '0' :: 'o' :: cs => 2 + run Char.isDigit cs
  | c :: cs =>
    if c.isDigit || c == '.' then
      let whole := if c.isDigit then 1 + digits cs else 0
      let more := fraction ((c :: cs).drop whole)
      if whole + more ≤ 1 && !c.isDigit then 0
      else whole + more + exponent ((c :: cs).drop (whole + more))
    else 0
  | [] => 0

/-- The length of a literal after its opening quote, if it is closed. -/
def closed? (quote : Char) : List Char → Option Nat
  | [] => none
  | c :: cs =>
    if c = quote then some 1
    else if c = '\\' then
      match cs with
      | _ :: ds => (closed? quote ds).map (· + 2)
      | [] => none
    else (closed? quote cs).map (· + 1)

/-- Literals in single, double or slanted quotes. -/
def literal : List Char → Nat
  | [] => 0
  | c :: cs =>
    if c = Text.apostrophe ∨ c = '"' ∨ c = '\x60' then ((closed? c cs).map (· + 1)).getD 0 else 0

/-- The types of casts. -/
def castTypes : List String :=
  ["int", "integer", "bool", "boolean", "float", "double", "real", "string", "binary", "array",
    "object", "unset", "void"]

/-- A type in parentheses. -/
def cast : List Char → Nat
  | '(' :: cs =>
    let before := run isSpace cs
    let word := (cs.drop before).takeWhile Char.isAlpha
    let after := run isSpace (cs.drop (before + word.length))
    if castTypes.contains (String.ofList (word.map Char.toLower)) &&
        (cs.drop (before + word.length + after)).head? == some ')' then
      2 + before + word.length + after
    else 0
  | _ => 0

/-- What may follow the first character of a sign within the same token. -/
def continuations (c : Char) : List String :=
  match c with
  | '+' => ["+", "="]
  | '-' => ["-", "=", ">"]
  | '!' => ["=", "=="]
  | '=' => ["=", "==", ">"]
  | '<' => ["=", "=>", ">", "<", "<=", "<<"]
  | '>' => ["=", ">", ">="]
  | '*' => ["=", "*", "*="]
  | '/' => ["="]
  | '%' => ["="]
  | '.' => ["=", ".."]
  | '&' => ["&", "="]
  | '|' => ["|", "="]
  | '^' => ["="]
  | '?' => ["?", "?=", "->", ">"]
  | ':' => [":"]
  | '#' => ["["]
  | _ => []

/-- The length of the longest of the words that a text starts with. -/
def longest (words : List String) (cs : List Char) : Nat :=
  ((words.filter (·.toList.isPrefixOf cs)).map (·.toList.length)).foldr max 0

def sign : List Char → Nat
  | [] => 0
  | c :: cs => 1 + longest (continuations c) cs

/-- The rules by which tokens are found. -/
def rules : List (List Char → Nat) := [space, comment, name, variableName, number, literal, cast, sign]

/-! ### Splitting a text -/

/-- The length of the longest token at the start of a text. -/
def munch (cs : List Char) : Nat := (rules.map (· cs)).foldr max 1

/-- The first `n` tokens of a text. -/
def tokensWithin : Nat → List Char → List (List Char)
  | 0, _ => []
  | _ + 1, [] => []
  | n + 1, c :: cs =>
    (c :: cs).take (munch (c :: cs)) :: tokensWithin n ((c :: cs).drop (munch (c :: cs)))

/-- The tokens of a text; there are no more of them than characters. -/
def tokens (cs : List Char) : List (List Char) := tokensWithin cs.length cs

theorem munch_pos (cs : List Char) : 1 ≤ munch cs := by
  unfold munch
  generalize rules.map (· cs) = lengths
  induction lengths with
  | nil => exact Nat.le_refl 1
  | cons n lengths ih =>
    rw [List.foldr_cons]
    exact Nat.le_trans ih (Nat.le_max_right _ _)

/-- What a token leaves is shorter. -/
theorem length_drop_munch (c : Char) (cs : List Char) :
    ((c :: cs).drop (munch (c :: cs))).length ≤ cs.length := by
  have hpos := munch_pos (c :: cs)
  rw [List.length_drop, List.length_cons]
  omega

theorem tokensWithin_eq {n : Nat} {cs : List Char} (h : cs.length ≤ n) : tokensWithin n cs = tokens cs := by
  unfold tokens
  generalize hm : cs.length = m at h
  have hcs : cs.length ≤ m := Nat.le_of_eq hm
  clear hm
  induction n generalizing m cs with
  | zero =>
    have hnil : cs = [] := List.length_eq_zero_iff.1 (by omega)
    subst hnil
    cases m <;> rfl
  | succ n ih =>
    cases cs with
    | nil => cases m <;> rfl
    | cons c cs =>
      have hless := length_drop_munch c cs
      rw [List.length_cons] at hcs
      cases m with
      | zero => omega
      | succ m =>
        rw [tokensWithin, tokensWithin, ih (m := m) (by omega) (by omega)]

/-- The first token of a text, and those of what it leaves. -/
theorem tokens_cons (c : Char) (cs : List Char) :
    tokens (c :: cs) =
      (c :: cs).take (munch (c :: cs)) :: tokens ((c :: cs).drop (munch (c :: cs))) := by
  rw [← tokensWithin_eq (length_drop_munch c cs)]
  rfl

/-- Nothing is lost. -/
theorem flatten_tokens (cs : List Char) : (tokens cs).flatten = cs := by
  generalize hn : cs.length = n
  induction n using Nat.strongRecOn generalizing cs with
  | ind n ih =>
    cases cs with
    | nil => rfl
    | cons c cs =>
      have hless := length_drop_munch c cs
      rw [List.length_cons] at hn
      rw [tokens_cons, List.flatten_cons, ih _ (by omega) _ rfl, List.take_append_drop]

/-! ### Signs before other code -/

theorem longest_eq_zero_iff {words : List String} (h : ∀ w ∈ words, w.toList ≠ []) (cs : List Char) :
    longest words cs = 0 ↔ ∀ w ∈ words, ¬ w.toList <+: cs := by
  unfold longest
  induction words with
  | nil => simp
  | cons w words ih =>
    have hw : 0 < w.toList.length := List.length_pos_iff.2 (h w List.mem_cons_self)
    have hrest := ih fun v hv => h v (List.mem_cons_of_mem _ hv)
    rw [List.forall_mem_cons, ← hrest]
    by_cases hstart : w.toList <+: cs
    · rw [List.filter_cons_of_pos (by simpa using hstart), List.map_cons, List.foldr_cons]
      have hmax := Nat.le_max_left w.toList.length
        (((words.filter (·.toList.isPrefixOf cs)).map (·.toList.length)).foldr max 0)
      exact ⟨fun hzero => by omega, fun hno => absurd hstart hno.1⟩
    · rw [List.filter_cons_of_neg (by simpa using hstart)]
      simp [hstart]

/-- The signs that may stand before an operand. -/
def marks : List Char := ['!', '-', '+']

/-- No token but a sign starts with one of these. -/
theorem munch_mark {c : Char} (h : c ∈ marks) (cs : List Char) :
    munch (c :: cs) = 1 + longest (continuations c) cs := by
  have hsign : munch (c :: cs) = max (sign (c :: cs)) 1 := by
    simp only [marks, List.mem_cons, List.not_mem_nil, or_false] at h
    rcases h with rfl | rfl | rfl <;>
      simp [munch, rules, space, run, isSpace, comment, name, isInitial, variableName, number, literal,
        Text.apostrophe, cast, sign]
  rw [hsign, sign]
  omega

/-- A mark is a token of its own exactly if none of its continuations follows. -/
theorem tokens_mark_iff {c : Char} (h : c ∈ marks) (cs : List Char) :
    tokens (c :: cs) = [c] :: tokens cs ↔ ∀ w ∈ continuations c, ¬ w.toList <+: cs := by
  have hwords : ∀ w ∈ continuations c, w.toList ≠ [] := by
    simp only [marks, List.mem_cons, List.not_mem_nil, or_false] at h
    rcases h with rfl | rfl | rfl <;> decide
  rw [← longest_eq_zero_iff hwords, tokens_cons, munch_mark h]
  constructor
  · intro htokens
    obtain ⟨hfirst, -⟩ := List.cons.inj htokens
    rw [Nat.add_comm, List.take_succ_cons] at hfirst
    rcases List.take_eq_nil_iff.1 (List.cons.inj hfirst).2 with hzero | rfl
    · exact hzero
    · exact (longest_eq_zero_iff hwords []).2 fun w hw hnil => hwords w hw (List.prefix_nil.1 hnil)
  · intro hzero
    rw [hzero]
    rfl

end Token
end Stencil
