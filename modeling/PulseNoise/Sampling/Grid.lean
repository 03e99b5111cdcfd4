import PulseNoise.Error
import PulseNoise.Number.Order

/-!
# Sample grids

The grid of random noise: evenly spaced points from the start of an interval, as many as fit. The
points are kept as their rule, so that a grid of millions of points costs nothing until they are
listed.

* `SampleGrid.make?` counts the points of an interval; the step has to be positive and finite, and
  the count must stay within `maxGridPoints`.
* `SampleGrid.point` is a point of the grid, `SampleGrid.points` lists all of them.
-/

namespace PulseNoise.Sampling

/-- A grid must not have more points than this. -/
def maxGridPoints : Nat := 10000000

/-- Whether a step is one that a grid can have. -/
def isTimeStep (dt : Float) : Bool := dt.isFinite && 0.0 < dt

/-- Evenly spaced points from a start. -/
structure SampleGrid where
  start : Float
  step : Float
  count : Nat
  deriving DecidableEq, Repr

namespace SampleGrid

/-- The grid on an interval: one point for each whole step that fits, and the start. -/
def make? (start stop dt : Float) : Except Error SampleGrid :=
  if !isTimeStep dt then .error (.invalidTimeStep dt)
  else
    let steps := (stop - start) / dt
    if !steps.isFinite || steps < 0.0 || Number.ofCount maxGridPoints ≤ steps then
      .error (.invalidArgument (.gridSize start stop dt maxGridPoints))
    else .ok ⟨start, dt, steps.toUInt64.toNat + 1⟩

def point (grid : SampleGrid) (k : Nat) : Float := Number.ofCount k * grid.step + grid.start

def points (grid : SampleGrid) : List Float := (List.range grid.count).map grid.point

end SampleGrid

end PulseNoise.Sampling
