import PulseNoise.Operator.Algebra
import PulseNoise.Source.Basic

/-!
# ZZ crosstalk

The static coupling between neighbouring transmons of a chain, restricted to the two lowest levels
of each. It is written to the accumulator as constant coherent noise. Crosstalk is no device
noise: it always runs, and its terms are seen when the accumulator is.

* `CrosstalkParameters.check` compares the parameter sequences with the length of the chain.
* `populationDifference` is Z on the levels 0 and 1, and zero on all higher levels.
* `CrosstalkParameters.coefficient` is the strength of one pair.
-/

namespace PulseNoise

/-- The parameters of a chain of transmons. -/
structure CrosstalkParameters where
  coupling : List Float
  /-- The frequency of each qubit, dressed by the cavity. -/
  frequency : List Float
  /-- The anharmonicity of each qubit. -/
  anharmonicity : List Float
  deriving BEq, DecidableEq, Repr

namespace CrosstalkParameters

/-- A sequence needs so many entries; it may have more. -/
def checkLength (name : String) (values : List Float) (required : Nat) : Except Error Unit :=
  if values.length < required then .error (.parameterLength name values.length required)
  else .ok ()

/-- The sequences have to cover a chain of so many qubits. -/
def check (parameters : CrosstalkParameters) (qubits : Nat) : Except Error Unit := do
  checkLength "J" parameters.coupling (qubits - 1)
  checkLength "wq_dressed_cavity" parameters.frequency qubits
  checkLength "alpha" parameters.anharmonicity qubits

/-- The strength of ZZ between a qubit and the next one. -/
def strength (coupling detuning alpha alphaNext : Float) : Float :=
  coupling * coupling * (1.0 / (detuning - alphaNext) - 1.0 / (detuning + alpha))

/-- The strength of ZZ between qubits `i` and `i + 1`. -/
def coefficient (parameters : CrosstalkParameters) (i : Nat) : Except Error Float := do
  let here ← entry parameters.frequency i
  let next ← entry parameters.frequency (i + 1)
  let coupling ← entry parameters.coupling i
  let alphaNext ← entry parameters.anharmonicity (i + 1)
  let alpha ← entry parameters.anharmonicity i
  return strength coupling (here - next) alpha alphaNext

end CrosstalkParameters

/-- Z on the two lowest of `d` levels, computed as `P (2 n - I) P` with their projector `P`. -/
def populationDifference (d : Nat) : Except Error Operator := do
  let projector ← Operator.projector d [0, 1]
  let z ← ((Operator.num d).scale 2.0).sub (Operator.identity d)
  (← projector.mul z).mul projector

/-- ZZ crosstalk along a chain. -/
structure Crosstalk where
  parameters : CrosstalkParameters
  deriving BEq, DecidableEq, Repr

namespace Crosstalk

variable {σ : Type}

def unequalDims (i left right : Nat) : String :=
  s!"crosstalk pair ({i}, {i + 1}) has unequal dims {left} and {right}, "
    ++ "restricting each side with its own"

/-- The accumulator with the term of qubits `i` and `i + 1`, of the given dimensions. -/
def couplePair (noise : Crosstalk) (dims : List Nat) (accumulator : Pulse) (i left right : Nat) :
    Except Error Pulse := do
  let zLeft ← populationDifference left
  let zRight ← populationDifference right
  let coefficient ← noise.parameters.coefficient i
  let operator := (zLeft.tensor zRight).scale (coefficient / 2.0)
  checkPlacement operator [i, i + 1] dims
  accumulator.addCoherent operator [i, i + 1] none .constant

/-- One step along the chain: unequal neighbours are recorded before their term is made. -/
def couple (noise : Crosstalk) (dims : List Nat) (accumulator : Pulse) (i : Nat) :
    Action σ Pulse := do
  let left ← entry dims i
  let right ← entry dims (i + 1)
  if left ≠ right then Action.record .warning (unequalDims i left right)
  noise.couplePair dims accumulator i left right

/-- The accumulator with the terms of all pairs of neighbours. -/
def accumulate (noise : Crosstalk) (dims : List Nat) (accumulator : Pulse) : Action σ Pulse :=
  (List.range (dims.length - 1)).foldlM (noise.couple dims) accumulator

/-- Crosstalk as a source; a chain of one has no pair. -/
def toSource (noise : Crosstalk) : Source σ where
  name := "zz_crosstalk"
  noisyPulses dims pulses accumulator := do
    if dims.length < 2 then return .unchanged
    noise.parameters.check dims.length
    let accumulator' ← noise.accumulate dims accumulator
    return .pulsesAndAccumulator pulses accumulator'

end Crosstalk

end PulseNoise
