/-!
# The length of a vector in the plane

The square root of `x² + y²` without overflow or underflow on the way. The plain square root is
corrected once by its own residual, and arguments near the ends of the exponent range are first
brought to the middle of it by a power of two, which is exact.
-/

namespace PulseNoise.Number

/-- The power of two by which extreme arguments are scaled. -/
def extremeScale : Float := Float.ofBits 0x1a70000000000000

/-- From here on a square may overflow. -/
def hugeBound : Float := Float.ofBits 0x5fe0000000000000

/-- Below this bound a square may underflow. -/
def tinyBound : Float := Float.ofBits 0x2340000000000000

/-- A leg this much shorter than the other one does not change the length. -/
def negligibleRatio : Float := Float.ofBits 0x3c90000000000000

/-- The length for legs `long ≥ short` whose squares stay in range: the rounded square root less
half its residual over itself. -/
def correctedRoot (long short : Float) : Float :=
  let h := (long * long + short * short).sqrt
  let residual :=
    if h ≤ 2.0 * short then
      let δ := h - short
      long * (2.0 * δ - long) + (δ - 2.0 * (long - short)) * δ
    else
      let δ := h - long
      2.0 * δ * (long - 2.0 * short) + ((4.0 * δ - short) * short + δ * δ)
  h - residual / (2.0 * h)

/-- The length of the vector `(x, y)`; an infinite leg makes it infinite, whatever the other. -/
def modulus (x y : Float) : Float :=
  if !x.isFinite || !y.isFinite then
    if x.isInf || y.isInf then 1.0 / 0.0 else x + y
  else
    let x := x.abs
    let y := y.abs
    let long := if x < y then y else x
    let short := if x < y then x else y
    if hugeBound < long then
      if short ≤ long * negligibleRatio then long + short
      else correctedRoot (long * extremeScale) (short * extremeScale) / extremeScale
    else if short < tinyBound then
      if short / negligibleRatio ≤ long then long + short
      else correctedRoot (long / extremeScale) (short / extremeScale) * extremeScale
    else if short ≤ long * negligibleRatio then long + short
    else correctedRoot long short

end PulseNoise.Number
