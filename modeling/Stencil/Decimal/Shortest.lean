/-
# The shortest decimal of a double

A finite double stands for every real number that rounds to it. Among the
decimals in that interval this module picks one with the fewest digits, and
of those the closest to the double itself. All arithmetic is exact, on
natural numbers.

Key definitions:
* `Binary`: a double as `significand * 2 ^ exponent`.
* `Binary.Admits`: a decimal reads back as the double.
* `shortest`: the digits chosen, and the power of ten of the first of them.
-/

namespace Stencil
namespace Decimal

/-- The magnitude `significand * 2 ^ exponent` of a finite double. -/
structure Binary where
  significand : Nat
  exponent : Int
  /-- The next double below is half as far away as the next one above. -/
  narrowBelow : Bool
  deriving Repr, DecidableEq

namespace Binary

/-- The magnitude held in the bits of a finite double; the sign is dropped. -/
def ofBits (bits : UInt64) : Binary :=
  let biased := (bits >>> 52 &&& 0x7ff).toNat
  let fraction := (bits &&& 0xfffffffffffff).toNat
  if biased = 0 then ⟨fraction, -1074, false⟩
  else ⟨0x10000000000000 + fraction, biased - 1075, fraction = 0 && 1 < biased⟩

/-- Numerator of the magnitude divided by `10 ^ scale`. -/
def numerator (x : Binary) (scale : Int) : Nat :=
  x.significand * Nat.pow 2 x.exponent.toNat * Nat.pow 10 (-scale).toNat

/-- Denominator of the magnitude divided by `10 ^ scale`. -/
def denominator (x : Binary) (scale : Int) : Nat :=
  Nat.pow 2 (-x.exponent).toNat * Nat.pow 10 scale.toNat

/-- The decimal `digits * 10 ^ scale` rounds to `x`, a half going to the even
significand. Distances are counted in quarters of the gap above `x`. -/
def Admits (x : Binary) (digits : Nat) (scale : Int) : Prop :=
  let unit := Nat.pow 2 x.exponent.toNat * Nat.pow 10 (-scale).toNat
  let here := 4 * digits * x.denominator scale
  let low := (4 * x.significand - if x.narrowBelow then 1 else 2) * unit
  let high := (4 * x.significand + 2) * unit
  if x.significand % 2 = 0 then low ≤ here ∧ here ≤ high else low < here ∧ here < high

instance (x : Binary) (digits : Nat) (scale : Int) : Decidable (x.Admits digits scale) := by
  unfold Admits
  infer_instance

/-- The power of ten of the leading digit of a positive magnitude. -/
def magnitude (x : Binary) : Int :=
  let num := x.numerator 0
  let den := x.denominator 0
  if den ≤ num then (Nat.toDigits 10 (num / den)).length - 1
  else
    let places := (Nat.toDigits 10 (den / num)).length
    if num * Nat.pow 10 (places - 1) = den then 1 - places else -places

end Binary

/-- Which neighbour to take when two decimals of the same length are equally
close. -/
inductive Tie where
  | toEven
  | up
  deriving Repr, DecidableEq

/-- The admitted decimal `d * 10 ^ scale` closest to `x`, if a neighbour of `x`
on that grid is admitted. -/
def onGrid (tie : Tie) (x : Binary) (scale : Int) : Option Nat :=
  let den := x.denominator scale
  let low := x.numerator scale / den
  let rest := 2 * (x.numerator scale % den)
  match decide (x.Admits low scale), decide (x.Admits (low + 1) scale) with
  | false, false => none
  | true, false => some low
  | false, true => some (low + 1)
  | true, true =>
    if rest < den then some low
    else if den < rest then some (low + 1)
    else match tie with
      | .up => some (low + 1)
      | .toEven => some (if low % 2 = 0 then low else low + 1)

/-- A positive decimal: its digits without trailing zeros, and the power of ten
of the first digit. -/
structure Scientific where
  digits : List Char
  exponent : Int
  deriving Repr, DecidableEq

/-- The decimal `value * 10 ^ scale`, trailing zeros dropped. -/
def Scientific.ofNat (value : Nat) (scale : Int) : Scientific :=
  let digits := Nat.toDigits 10 value
  ⟨(digits.reverse.dropWhile (· == '0')).reverse, scale + digits.length - 1⟩

/-- The exact decimal expansion of a magnitude. -/
def exact (x : Binary) : Scientific :=
  let places := (-x.exponent).toNat
  .ofNat (x.significand * Nat.pow 2 x.exponent.toNat * Nat.pow 5 places) (-places)

/-- The shortest decimal that reads back as the positive magnitude `x`: grids of
1 to 17 digits are tried from the coarsest on. -/
def shortest (tie : Tie) (x : Binary) : Scientific :=
  let scales := (List.range 17).map fun n : Nat => x.magnitude - n
  match scales.findSome? fun scale => (onGrid tie x scale).map fun d => (d, scale) with
  | some (d, scale) => .ofNat d scale
  | none => exact x

end Decimal
end Stencil
