import PulseNoise.Run
import PulseNoise.Pulse.Basic

/-!
# Noise sources

A source is a physical mechanism that can be composed with others: given the dimensions of the
system, the pulses as they are and the accumulator, it answers with an `Outcome`. Sources get and
give values, so a source cannot keep hold of what the run works on; what it remembers is the
run's state.

* `Source.apply` asks a source and checks its answer: the pulses keep their number, and the
  accumulator stays without an ideal term.
* `LegacySource.adopt` makes a source of one written for the older hook, with a warning.
-/

namespace PulseNoise

/-- What a source answers. -/
inductive Outcome
  /-- Nothing is modified. -/
  | unchanged
  /-- New pulses beside the accumulator as it was. -/
  | pulses (noisy : List Pulse)
  /-- New pulses and a new accumulator. -/
  | pulsesAndAccumulator (noisy : List Pulse) (accumulator : Pulse)
  deriving DecidableEq

/-- What a run works on: the pulses and the accumulator. -/
structure Workpiece where
  pulses : List Pulse
  accumulator : Pulse
  deriving DecidableEq

/-- A noise source over the states `σ` of a run. -/
structure Source (σ : Type) where
  /-- The name in events and failures. -/
  name : String := "noise"
  /-- Whether the noise is that of the device, which is applied on request only. -/
  isDevice : Bool := false
  /-- The answer for the dimensions of the system, the pulses and the accumulator. -/
  noisyPulses : List Nat → List Pulse → Pulse → Action σ Outcome

namespace Source

variable {σ : Type}

/-- The pulses of an answer have to be as many as those given. -/
def checkCount (source : Source σ) (expected got : Nat) : Except Error Unit :=
  if expected = got then .ok ()
  else .error (.malformedOutput source.name (.pulseCount expected got))

/-- The accumulator of an answer must not have an ideal term. -/
def checkAccumulator (source : Source σ) (accumulator : Pulse) : Except Error Unit :=
  if accumulator.isSystematic then .ok ()
  else .error (.malformedOutput source.name (.idealAccumulator accumulator.label))

def absorb (source : Source σ) (work : Workpiece) : Outcome → Except Error Workpiece
  | .unchanged => .ok work
  | .pulses noisy => do
    source.checkCount work.pulses.length noisy.length
    return { work with pulses := noisy }
  | .pulsesAndAccumulator noisy accumulator => do
    source.checkCount work.pulses.length noisy.length
    source.checkAccumulator accumulator
    return ⟨noisy, accumulator⟩

def apply (source : Source σ) (dims : List Nat) (work : Workpiece) : Action σ Workpiece := do
  let outcome ← source.noisyPulses dims work.pulses work.accumulator
  source.absorb work outcome

/-- The source over a larger state, of which it keeps to one part. -/
def within {τ : Type} (cell : Cell σ τ) (source : Source τ) : Source σ :=
  { name := source.name
    isDevice := source.isDevice
    noisyPulses := fun dims pulses accumulator =>
      (source.noisyPulses dims pulses accumulator).within cell }

end Source

/-- A source written for the older hook, which has no device flag. -/
structure LegacySource (σ : Type) where
  name : String := "legacy noise"
  noisyDynamics : List Nat → List Pulse → Pulse → Action σ Outcome

namespace LegacySource

variable {σ : Type}

def warning (name : String) : String :=
  s!"Using get_noisy_dynamics as the hook function for custom noise ('{name}') will be "
    ++ "deprecated, please implement Noise::get_noisy_pulses instead"

/-- The source as one among others; taking it in is recorded once. -/
def adopt (source : LegacySource σ) : Action σ (Source σ) := do
  Action.record .warning (warning source.name)
  return { name := source.name, noisyPulses := source.noisyDynamics }

end LegacySource

end PulseNoise
