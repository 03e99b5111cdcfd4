import PulseNoise.Pulse.Basic

/-!
# The time axis of pulses

* `Pulse.span` is the first and the last moment of a pulse's ideal grid.
* `Pulse.timeAxis` is the sorted union of the grids of all terms of a pulse. Points are sorted by
  the total order and then merged by numeric equality, so that the two zeros become one point.
* `sharedSpan` is the span of several pulses together.
-/

namespace PulseNoise

/-- What is left of a list after an element when equal neighbours are merged into the first. -/
def mergeAfter (last : Float) : List Float → List Float
  | [] => []
  | x :: xs => if x == last then mergeAfter last xs else x :: mergeAfter x xs

/-- A list with each run of equal neighbours merged into its first element. -/
def mergeEqual : List Float → List Float
  | [] => []
  | x :: xs => x :: mergeAfter x xs

namespace Pulse

/-- The first and the last moment of the ideal grid. -/
def span (pulse : Pulse) : Option (Float × Float) := pulse.ideal.bind (·.span)

/-- The points of the grids of all terms, as they stand. -/
def gridPoints (pulse : Pulse) : List Float := pulse.terms.flatMap fun term => term.grid.getD []

/-- The points of the grids of all terms, each once, in ascending order. -/
def timeAxis (pulse : Pulse) : Option (List Float) :=
  match pulse.gridPoints with
  | [] => none
  | points => some (mergeEqual (points.mergeSort Number.totalLE))

end Pulse

/-- The hull of two time spans. -/
def joinSpans (a b : Float × Float) : Float × Float :=
  (Number.lesser a.1 b.1, Number.greater a.2 b.2)

/-- The first and the last moment of all ideal grids; there has to be one with points. -/
def sharedSpan (pulses : List Pulse) : Except Error (Float × Float) :=
  match pulses.filterMap (·.span) with
  | [] => .error (.missingTimeGrid .noSampledPulse)
  | first :: rest => .ok (rest.foldl joinSpans first)

end PulseNoise
