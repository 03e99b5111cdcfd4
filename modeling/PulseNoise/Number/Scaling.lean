import PulseNoise.Number.Numeral

/-!
# Reading a numeral by scaling

`Numeral.toFloat?` is how the numbers of JSON texts become doubles. The leading digits that fit in
64 bits are taken as a natural, the natural is rounded to a double, and the double is multiplied or
divided by a power of ten. Each step rounds, so the result is a double near the numeral and not
always the nearest one, `Numeral.nearest?`: `9007199254740993.0` is read as `9007199254740994`.

* `Numeral.leading` is the decimal of the leading digits.
* `Decimal.toFloat?` is the scaled double; it is refused when it is infinite.
-/

namespace PulseNoise.Number

namespace Decimal

/-- Drops last digits until the significand fits in 64 bits, so many at most. -/
def shorten : Nat → Decimal → Decimal
  | 0, d => d
  | bound + 1, d =>
    if d.significand < UInt64.size then d
    else shorten bound ⟨d.significand / 10, d.exponent + 1⟩

/-- Appends digits after the last one, up to the first that does not fit in 64 bits. -/
def extend : Decimal → List (Fin 10) → Decimal
  | d, [] => d
  | d, digit :: digits =>
    let significand := 10 * d.significand + digit.val
    if significand < UInt64.size then extend ⟨significand, d.exponent - 1⟩ digits else d

def maxPower : Nat := 308

def powerOfTen (k : Nat) : Float := Float.ofScientific 1 false k

/-- Divides by the greatest power of ten so many times, unless zero comes first. -/
def shrink : Nat → Float → Float
  | 0, x => x
  | count + 1, x => if x == 0.0 then x else shrink count (x / powerOfTen maxPower)

/-- The significand as a double, scaled by the power of ten. An exponent above `maxPower` is
refused unless the significand is zero; one below `-maxPower` is divided out in several steps. -/
def toFloat? (d : Decimal) : Option Float :=
  let x := Float.ofScientific d.significand false 0
  match d.exponent with
  | .ofNat k =>
    if k ≤ maxPower then
      let scaled := x * powerOfTen k
      if scaled.isFinite then some scaled else none
    else if d.significand = 0 then some x
    else none
  | .negSucc k => some (shrink (k / maxPower) x / powerOfTen (k % maxPower + 1))

end Decimal

namespace Numeral

/-- The leading digits of a numeral that fit in 64 bits, at their place. -/
def leading (n : Numeral) : Decimal :=
  let whole := Decimal.shorten n.whole.log2 ⟨n.whole, n.power.getD 0⟩
  whole.extend n.fraction

/-- The double of a numeral, if it is finite. -/
def toFloat? (n : Numeral) : Option Float := do
  let x ← n.leading.toFloat?
  return if n.negative then -x else x

end Numeral

end PulseNoise.Number
