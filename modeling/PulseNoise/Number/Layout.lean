import PulseNoise.Number.Numeral
import PulseNoise.Number.Order

/-!
# How doubles are laid out

All texts of doubles share their digits, the shortest ones that read back, and differ in where
positional writing ends and in what a whole number carries. A `Layout` holds these decisions.

* `Layout.message`: texts for people; positional at any size, whole numbers without a fraction.
* `Layout.inspection`: texts that show the structure of a value; whole numbers carry `.0`, and
  numbers below `1e-4` or from `1e16` on are written with a power of ten.
* `Layout.data`: numbers in JSON texts; like inspection, but positional from `1e-5` on and with
  the sign of the power always written.
-/

namespace PulseNoise.Number

/-- The decisions in writing a double as a decimal. -/
structure Layout where
  /-- Least place of the first digit that is written positionally; `none` for no limit. -/
  lowest : Option Int
  /-- Greatest place of the first digit that is written positionally; `none` for no limit. -/
  highest : Option Int
  /-- Whether a whole number in positional writing ends with `.0`. -/
  pointZero : Bool
  /-- Whether a positive power of ten carries its sign. -/
  plus : Bool
  /-- Which of two equally near decimals is taken. -/
  tie : Tie

namespace Layout

/-- Doubles in messages: never a power of ten, and no `.0` on whole numbers. -/
def message : Layout := ⟨none, none, false, false, .up⟩

/-- Doubles in the texts that show a value's structure. -/
def inspection : Layout := ⟨some (-4), some 15, true, false, .up⟩

/-- Doubles in JSON texts. -/
def data : Layout := ⟨some (-5), some 15, true, true, .toEven⟩

/-- The last `count` decimal digits of a number, first digit first. -/
def digitList : Nat → Nat → List (Fin 10)
  | 0, _ => []
  | count + 1, n => digitList count (n / 10) ++ [Numeral.lastDigit n]

/-- Whether a number whose first digit stands at a place is written positionally. -/
def isPositional (layout : Layout) (place : Int) : Bool :=
  layout.lowest.all (· ≤ place) && layout.highest.all (place ≤ ·)

def wholeFraction (layout : Layout) : List (Fin 10) := if layout.pointZero then [0] else []

def ofDecimal (layout : Layout) (negative : Bool) (d : Decimal) : Numeral :=
  let digits := (Nat.toDigits 10 d.significand).length
  let place : Int := d.exponent + digits - 1
  if layout.isPositional place then
    if 0 ≤ d.exponent then
      ⟨negative, d.significand * Nat.pow 10 d.exponent.toNat, layout.wholeFraction, none⟩
    else
      let places := d.exponent.natAbs
      ⟨negative, d.significand / Nat.pow 10 places, digitList places d.significand, none⟩
  else
    let places := digits - 1
    ⟨negative, d.significand / Nat.pow 10 places, digitList places d.significand, some place⟩

/-- A finite double laid out; the zeros keep their sign. -/
def numeral (layout : Layout) (x : Float) : Numeral :=
  let negative := hasSign x
  if x == 0.0 then ⟨negative, 0, layout.wholeFraction, none⟩
  else layout.ofDecimal negative (shortest layout.tie x)

def text (layout : Layout) (x : Float) : String :=
  if x.isNaN then "NaN"
  else if x.isInf then if x < 0.0 then "-inf" else "inf"
  else (layout.numeral x).text layout.plus

end Layout

def messageText (x : Float) : String := Layout.message.text x

def inspectionText (x : Float) : String := Layout.inspection.text x

end PulseNoise.Number
