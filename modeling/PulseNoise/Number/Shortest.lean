/-!
# The fewest digits that read back

A finite double other than zero is `m · 2 ^ q` with a mantissa `m` and an exponent `q`. The reals
that round to it form an interval around it, and its shortest decimal is the point of the coarsest
decimal grid, of the multiples of `10 ^ i`, that meets the interval; of several points the nearest.
All comparisons are between natural numbers, so nothing is lost to rounding.

* `RoundingInterval.ofFloat` is the interval of a double.
* `RoundingInterval.candidate` is the best point of one grid, if the interval holds one.
* `shortest` takes the first grid with a candidate, from the coarsest one down.
-/

namespace PulseNoise.Number

structure Decimal where
  significand : Nat
  exponent : Int
  deriving DecidableEq, Repr

/-- What to do with a value halfway between two decimals. -/
inductive Tie
  | up
  | toEven
  deriving DecidableEq, Repr

/-- The reals that round to one positive double, in units of `2 ^ unit`; the ends belong to it
when `closed` is set. -/
structure RoundingInterval where
  low : Nat
  center : Nat
  high : Nat
  unit : Int
  closed : Bool
  deriving Repr

/-- The leading bit of a normal double's mantissa, which is not stored. -/
def hiddenBit : Nat := 4503599627370496

namespace RoundingInterval

/-- The interval of a finite double's magnitude. Below a power of two the doubles are twice as
dense, hence the shorter half below it. -/
def ofFloat (x : Float) : RoundingInterval :=
  let bits := x.toBits.toNat
  let stored := bits % hiddenBit
  let biased : Nat := bits / hiddenBit % 2048
  let mantissa : Nat := if biased = 0 then stored else hiddenBit + stored
  let exponent : Int := if biased = 0 then -1074 else (biased : Int) - 1075
  { low := 4 * mantissa - (if stored = 0 ∧ 1 < biased then 1 else 2)
    center := 4 * mantissa
    high := 4 * mantissa + 2
    unit := exponent - 2
    closed := mantissa % 2 == 0 }

/-- Numerator of `2 ^ unit / 10 ^ i`. -/
def ratioNum (r : RoundingInterval) (i : Int) : Nat :=
  Nat.pow 2 r.unit.toNat * Nat.pow 10 (-i).toNat

/-- Denominator of `2 ^ unit / 10 ^ i`. -/
def ratioDen (r : RoundingInterval) (i : Int) : Nat :=
  Nat.pow 2 (-r.unit).toNat * Nat.pow 10 i.toNat

/-- Whether `k · 10 ^ i` rounds to the double. -/
def contains (r : RoundingInterval) (i : Int) (k : Nat) : Bool :=
  let point := k * r.ratioDen i
  let low := r.low * r.ratioNum i
  let high := r.high * r.ratioNum i
  if r.closed then low ≤ point && point ≤ high else low < point && point < high

/-- The point of the grid `10 ^ i` that rounds to the double and is nearest to it. -/
def candidate (r : RoundingInterval) (tie : Tie) (i : Int) : Option Nat :=
  let value := r.center * r.ratioNum i
  let den := r.ratioDen i
  let k := value / den
  match r.contains i k, r.contains i (k + 1) with
  | false, false => none
  | true, false => some k
  | false, true => some (k + 1)
  | true, true =>
    if 2 * value < (2 * k + 1) * den then some k
    else if (2 * k + 1) * den < 2 * value then some (k + 1)
    else match tie with
      | .up => some (k + 1)
      | .toEven => some (if k % 2 = 0 then k else k + 1)

/-- An exponent `i` with `10 ^ i` above the double. -/
def topExponent (r : RoundingInterval) : Int :=
  ((r.center.log2 : Int) + 1 + r.unit) * 30103 / 100000 + 1

/-- The first grid with a candidate, going down from `10 ^ i`. -/
def search (r : RoundingInterval) (tie : Tie) : Nat → Int → Option Decimal
  | 0, _ => none
  | fuel + 1, i =>
    match r.candidate tie i with
    | some k => if k = 0 then r.search tie fuel (i - 1) else some ⟨k, i⟩
    | none => r.search tie fuel (i - 1)

end RoundingInterval

/-- The shortest decimal that reads back as the magnitude of a finite double other than zero.
Seventeen digits always suffice, and the search starts at most two places above the first. -/
def shortest (tie : Tie) (x : Float) : Decimal :=
  let r := RoundingInterval.ofFloat x
  (r.search tie 20 r.topExponent).getD ⟨0, 0⟩

end PulseNoise.Number
