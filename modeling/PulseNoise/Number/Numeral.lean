import PulseNoise.Number.Shortest

/-!
# Decimal numerals

A numeral is a number as it is written: a sign, whole digits, fraction digits and a power of ten.
It keeps the spelling (`1`, `1.0` and `1e0` are three numerals), so that what is written can be
told apart where only one spelling is allowed.

* `Numeral.text` writes a numeral.
* `Numeral.natural?` reads it as a 64-bit natural, which only plain digits are.
* `Numeral.nearest?` reads it as the nearest double; a number beyond all doubles has none.
-/

namespace PulseNoise.Number

/-- A number as it is written; no fraction digits and no power of ten mean that these parts are
not written. -/
structure Numeral where
  negative : Bool
  whole : Nat
  fraction : List (Fin 10)
  power : Option Int
  deriving DecidableEq, Repr

namespace Numeral

def ofNat (n : Nat) : Numeral := ⟨false, n, [], none⟩

def lastDigit (n : Nat) : Fin 10 := ⟨n % 10, Nat.mod_lt n (by decide)⟩

def digitChar (d : Fin 10) : Char := Char.ofNat ('0'.toNat + d.val)

/-- The text of a power of ten's exponent; a sign for positive ones is the writer's choice. -/
def powerText (plus : Bool) (e : Int) : String :=
  if e < 0 then "-" ++ toString e.natAbs
  else (if plus then "+" else "") ++ toString e.natAbs

def text (plus : Bool) (n : Numeral) : String :=
  (if n.negative then "-" else "") ++ toString n.whole
    ++ (if n.fraction.isEmpty then "" else "." ++ String.ofList (n.fraction.map digitChar))
    ++ (match n.power with
      | none => ""
      | some e => "e" ++ powerText plus e)

/-- A natural below `2 ^ 64`, which is written with digits alone. -/
def natural? (n : Numeral) : Option Nat :=
  if !n.negative && n.fraction.isEmpty && n.power.isNone && n.whole < UInt64.size then some n.whole
  else none

/-- All digits as one number. -/
def significand (n : Numeral) : Nat :=
  n.fraction.foldl (fun acc d => 10 * acc + d.val) n.whole

/-- The power of ten that the last digit counts. -/
def exponent (n : Numeral) : Int := n.power.getD 0 - n.fraction.length

/-- The magnitude of a numeral as a double, rounded to nearest. Numbers far outside the range of
the doubles are settled by their digit count alone. -/
def magnitude (significand : Nat) (exponent : Int) : Float :=
  let digits : Int := (Nat.toDigits 10 significand).length
  if significand = 0 || exponent + digits < -400 then 0.0
  else if 400 < exponent + digits then 1.0 / 0.0
  else if exponent < 0 then Float.ofScientific significand true exponent.natAbs
  else Float.ofScientific significand false exponent.natAbs

/-- The nearest double, if the number does not exceed all of them. -/
def nearest? (n : Numeral) : Option Float :=
  let x := magnitude n.significand n.exponent
  if x.isFinite then some (if n.negative then -x else x) else none

end Numeral

end PulseNoise.Number
