/-
# Writing doubles

A double is written with its shortest digits, positionally while its leading
digit stands in a given range of powers of ten and in scientific form outside
it. The decisions of one written form are the fields of `Numeral`.

Key definitions:
* `Numeral`: where positional form ends, how exponents look, which way ties go.
* `Numeral.render`: the text of a double.
-/
import Stencil.Decimal.Shortest

namespace Stencil
namespace Decimal

/-- The decisions of one way of writing doubles. -/
structure Numeral where
  /-- Least power of ten of the leading digit that is written positionally. -/
  lowest : Int
  /-- First power of ten of the leading digit that is too large for it. -/
  beyond : Int
  /-- Mark between digits and a non-negative exponent. -/
  mark : String
  tie : Tie
  infinite : String
  notANumber : String

namespace Numeral

/-- The digits with a point, at least one digit on either side of it. -/
def positional (x : Scientific) : List Char :=
  match x.exponent with
  | .ofNat n =>
    let whole := x.digits.take (n + 1)
    let fraction := x.digits.drop (n + 1)
    whole ++ List.replicate (n + 1 - x.digits.length) '0' ++ ['.'] ++
      if fraction.isEmpty then ['0'] else fraction
  | .negSucc n => ['0', '.'] ++ List.replicate n '0' ++ x.digits

/-- One digit, the others after a point if there are any, and the exponent. -/
def scientific (style : Numeral) (x : Scientific) : List Char :=
  let digits := match x.digits with
    | [] => []
    | [d] => [d]
    | d :: rest => d :: '.' :: rest
  let exponent := match x.exponent with
    | .ofNat n => style.mark.toList ++ Nat.toDigits 10 n
    | .negSucc n => ['e', '-'] ++ Nat.toDigits 10 (n + 1)
  digits ++ exponent

/-- The text of a magnitude; zero is `0.0`. -/
def magnitude (style : Numeral) (x : Binary) : List Char :=
  if x.significand = 0 then ['0', '.', '0']
  else
    let s := shortest style.tie x
    if style.lowest ≤ s.exponent ∧ s.exponent < style.beyond then positional s
    else style.scientific s

/-- The text of a double; the sign of zero is kept. -/
def render (style : Numeral) (x : Float) : String :=
  let bits := x.toBits
  let sign := if bits >>> 63 = 1 then ['-'] else []
  if x.isNaN then style.notANumber
  else if x.isInf then String.ofList sign ++ style.infinite
  else String.ofList (sign ++ style.magnitude (.ofBits bits))

end Numeral
end Decimal
end Stencil
