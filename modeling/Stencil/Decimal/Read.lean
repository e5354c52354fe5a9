/-
# Reading number literals

A number literal is a sign, digits, an optional fraction and an optional
exponent. An integer that fits its 64-bit range is kept exactly. Every other
literal is a double, computed in double arithmetic from a 64-bit significand:
digits are gathered while they fit, later digits of the whole part count as
powers of ten, later digits of the fraction are dropped, and the significand
is multiplied or divided once by a power of ten. Literals too large for a
double are refused.

Key definitions:
* `Literal`: the parts of a literal.
* `Literal.value?`: the number a literal stands for.
-/

namespace Stencil
namespace Decimal

/-- The number a literal stands for. -/
inductive Number where
  | int (value : Int)
  | double (value : Float)

/-- The parts of a number literal; digits are given as characters. -/
structure Literal where
  negative : Bool
  whole : List Char
  fraction : List Char
  exponent : Option Int
  /-- The literal has neither fraction nor exponent. -/
  integral : Bool
  deriving Repr, DecidableEq

/-- Numerical value of a digit. -/
def digit (c : Char) : Nat := c.toNat - '0'.toNat

/-- Value of a run of digits. -/
def value (digits : List Char) : Nat := digits.foldl (fun n c => 10 * n + digit c) 0

/-- The largest significand. -/
def limit : Nat := 0xffffffffffffffff

namespace Literal

/-- The exponent after its mark: an optional sign and at least one digit. -/
def exponent? (cs : List Char) : Option Int :=
  let (sign, digits) : Int × List Char := match cs with
    | '+' :: rest => (1, rest)
    | '-' :: rest => (-1, rest)
    | rest => (1, rest)
  if digits.isEmpty || !digits.all Char.isDigit then none
  else some (sign * value digits)

/-- What may follow the whole part: nothing, an exponent, or a point, at least
one digit and perhaps an exponent. -/
def tail? (negative : Bool) (whole : List Char) : List Char → Option Literal
  | [] => some ⟨negative, whole, [], none, true⟩
  | '.' :: rest =>
    let fraction := rest.takeWhile Char.isDigit
    if fraction.isEmpty then none
    else match rest.dropWhile Char.isDigit with
      | [] => some ⟨negative, whole, fraction, none, false⟩
      | c :: cs =>
        if c = 'e' ∨ c = 'E' then
          (exponent? cs).map fun e => ⟨negative, whole, fraction, some e, false⟩
        else none
  | c :: cs =>
    if c = 'e' ∨ c = 'E' then (exponent? cs).map fun e => ⟨negative, whole, [], some e, false⟩
    else none

/-- The literal spelled by `cs`: no leading zeros, no sign but a minus. -/
def ofChars? (cs : List Char) : Option Literal :=
  let (negative, cs) := match cs with
    | '-' :: rest => (true, rest)
    | rest => (false, rest)
  let whole := cs.takeWhile Char.isDigit
  match whole with
  | [] => none
  | '0' :: _ :: _ => none
  | _ => tail? negative whole (cs.dropWhile Char.isDigit)

/-- Digits of the whole part: the significand, and how many digits did not fit. -/
def gatherWhole (digits : List Char) : Nat × Nat :=
  digits.foldl (fun (s, dropped) c =>
    let next := 10 * s + digit c
    if dropped = 0 ∧ next ≤ limit then (next, 0) else (s, dropped + 1)) (0, 0)

/-- Digits of the fraction: the significand continued, and how many digits went
into it before the first that did not fit. -/
def gatherFraction (start : Nat) (digits : List Char) : Nat × Nat :=
  let (s, taken, _) := digits.foldl (fun (s, taken, full) c =>
    let next := 10 * s + digit c
    if !full && next ≤ limit then (next, taken + 1, false) else (s, taken, true))
    (start, 0, false)
  (s, taken)

/-- The nearest double to a power of ten. -/
def power (e : Nat) : Float := Float.ofScientific 1 false e

/-- The quotient `f / 10 ^ e`, in steps of at most 308 places. -/
def shrink (f : Float) (e : Nat) : Float :=
  if e ≤ 308 then f / power e
  else if f == 0 then f
  else shrink (f / power 308) (e - 308)
termination_by e

/-- The product `f * 10 ^ e`; nothing when it is not finite. -/
def scale? (f : Float) : Int → Option Float
  | .ofNat e =>
    if e ≤ 308 then
      let product := f * power e
      if product.isInf then none else some product
    else if f == 0 then some f
    else none
  | .negSucc e => some (shrink f (e + 1))

/-- The double a literal stands for, unless it is too large. -/
def double? (l : Literal) : Option Float :=
  let (whole, dropped) := gatherWhole l.whole
  let (significand, taken) := gatherFraction whole l.fraction
  let exponent := (dropped : Int) - taken + l.exponent.getD 0
  (scale? significand.toUInt64.toFloat exponent).map fun f => if l.negative then -f else f

/-- The number a literal stands for. Negative zero is a double. -/
def value? (l : Literal) : Option Number :=
  let n := value l.whole
  if l.integral && l.negative && 0 < n && n ≤ 0x8000000000000000 then some (.int (-n))
  else if l.integral && !l.negative && n ≤ limit then some (.int n)
  else l.double?.map .double

end Literal
end Decimal
end Stencil
