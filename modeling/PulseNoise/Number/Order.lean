/-!
# Doubles as counts and in order

The doubles of the library are IEEE 754 binary64 values, NaN included, so that comparing them is
not one relation but several. This module fixes the ones that the library uses.

* `ofCount` is the double of a 64-bit count.
* `lesser` and `greater` choose one of two doubles; a NaN gives way to the other one.
* `hasSign` tells the two zeros apart.
* `orderKey` numbers the doubles along the total order, in which `-0.0` comes before `0.0`.
-/

namespace PulseNoise.Number

/-- The double nearest to a count, which is a 64-bit number. -/
def ofCount (n : Nat) : Float := n.toUInt64.toFloat

/-- The lesser of two doubles: the first one when they are equal, the other one beside a NaN. -/
def lesser (a b : Float) : Float :=
  if b < a then b else if a.isNaN then b else a

/-- The greater of two doubles: the first one when they are equal, the other one beside a NaN. -/
def greater (a b : Float) : Float :=
  if a < b then b else if a.isNaN then b else a

def signBit : Nat := 0x8000000000000000

/-- Whether the sign of a double is set, as it is in `-0.0`. -/
def hasSign (x : Float) : Bool := signBit ≤ x.toBits.toNat

/-- The place of a double in the total order: negative doubles by falling magnitude, then
positive ones by rising magnitude, each zero with the doubles of its own sign. -/
def orderKey (x : Float) : Nat :=
  let bits := x.toBits.toNat
  if signBit ≤ bits then UInt64.size - 1 - bits else signBit + bits

def totalLE (a b : Float) : Bool := orderKey a ≤ orderKey b

end PulseNoise.Number
