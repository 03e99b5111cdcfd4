import PulseNoise.Operator.Algebra
import PulseNoise.Source.Basic

/-!
# Amplitude noise

Noise in the amplitude of control pulses: each selected pulse gets a coherent term with its own
ideal operator and targets. The accumulator is not touched.

* `selectIndices` checks a selection of pulses; all are selected by default.
* `Perturbation.term` is the operator and the coefficient of the added term.
* `perturb` adds it to a pulse, `perturbAt` to the pulse at an index.
-/

namespace PulseNoise

/-- How the amplitude of a control is perturbed. -/
inductive Perturbation
  /-- The control multiplied by a factor. -/
  | scale (factor : Float)
  /-- Samples that stand in for the control's coefficient. -/
  | samples (values : List Float)
  deriving BEq, DecidableEq, Repr

namespace Perturbation

/-- The operator and the coefficient that perturb a control. A static control has no samples to
multiply, so its operator is multiplied. -/
def term (perturbation : Perturbation) (ideal : Term) : Operator × Coefficient :=
  match perturbation, ideal.coefficient with
  | scale factor, .samples values => (ideal.operator, .samples (values.map (· * factor)))
  | scale factor, .constant => (ideal.operator.scale factor, .constant)
  | samples values, _ => (ideal.operator, .samples values)

end Perturbation

/-- The selected indices among so many pulses; the first one out of range is reported. -/
def selectIndices (indices : Option (List Nat)) (pulses : Nat) : Except Error (List Nat) :=
  match indices with
  | none => .ok (List.range pulses)
  | some indices =>
    match indices.find? (pulses ≤ ·) with
    | some index => .error (.pulseIndexOutOfRange index pulses)
    | none => .ok indices

/-- The pulse with a coherent perturbation of its control, on a given grid or else its own. -/
def perturb (perturbation : Perturbation) (grid : Option (List Float)) (pulse : Pulse) :
    Except Error Pulse :=
  match pulse.ideal with
  | none => .error (.missingIdealTerm pulse.label)
  | some ideal =>
    let (operator, coefficient) := perturbation.term ideal
    pulse.addCoherent operator ideal.targets (grid <|> ideal.grid) coefficient

/-- The pulses with the one at an index perturbed. -/
def perturbAt (perturbation : Perturbation) (grid : Option (List Float)) (pulses : List Pulse)
    (i : Nat) : Except Error (List Pulse) := do
  let pulse ← perturb perturbation grid (← entry pulses i)
  return pulses.set i pulse

structure AmplitudeNoise where
  perturbation : Perturbation
  /-- The grid of the added terms; the pulse's own when absent. -/
  grid : Option (List Float)
  /-- The pulses perturbed; all of them when absent. -/
  indices : Option (List Nat)
  deriving BEq, DecidableEq, Repr

namespace AmplitudeNoise

def ofPerturbation (perturbation : Perturbation) : AmplitudeNoise := ⟨perturbation, none, none⟩

def scale (factor : Float) : AmplitudeNoise := ofPerturbation (.scale factor)

def withGrid (noise : AmplitudeNoise) (grid : List Float) : AmplitudeNoise :=
  { noise with grid := some grid }

def withIndices (noise : AmplitudeNoise) (indices : List Nat) : AmplitudeNoise :=
  { noise with indices := some indices }

/-- The pulses with every selected one perturbed, in the order of the selection. -/
def perturbed (noise : AmplitudeNoise) (pulses : List Pulse) : Except Error (List Pulse) := do
  let indices ← selectIndices noise.indices pulses.length
  indices.foldlM (perturbAt noise.perturbation noise.grid) pulses

def toSource {σ : Type} (noise : AmplitudeNoise) : Source σ where
  name := "control_amp"
  noisyPulses _ pulses _ := do
    let noisy ← noise.perturbed pulses
    return .pulses noisy

end AmplitudeNoise

end PulseNoise
