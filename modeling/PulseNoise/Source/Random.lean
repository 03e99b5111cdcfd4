import PulseNoise.Pulse.TimeAxis
import PulseNoise.Sampling.Grid
import PulseNoise.Sampling.Sampler
import PulseNoise.Source.Amplitude

/-!
# Random amplitude noise

Amplitude noise whose samples are drawn at random on a grid shared by all pulses. The grid runs
over the span of all ideal grids; every selected pulse gets one draw, in the order of the
selection. The number of samples is the source's own affair, so that its name is not free as a
parameter.
-/

namespace PulseNoise

open Sampling

/-- The parameter that the source sets itself. -/
def sizeParameter : String := "size"

/-- Random amplitude noise with a sampler over the states `σ`. -/
structure RandomNoise (σ : Type) where
  /-- The step of the shared grid. -/
  dt : Float
  sampler : Sampler σ
  parameters : Parameters
  /-- The pulses perturbed; all of them when absent. -/
  indices : Option (List Nat)

namespace RandomNoise

variable {σ : Type}

def make? (dt : Float) (sampler : Sampler σ) (parameters : Parameters) :
    Except Error (RandomNoise σ) :=
  if parameters.contains sizeParameter then .error (.reservedParameter sizeParameter)
  else if !isTimeStep dt then .error (.invalidTimeStep dt)
  else .ok ⟨dt, sampler, parameters, none⟩

def withIndices (noise : RandomNoise σ) (indices : List Nat) : RandomNoise σ :=
  { noise with indices := some indices }

def sourceName : String := "random"

/-- What is recorded about the shared grid. -/
def gridText (grid : SampleGrid) (stop : Float) : String :=
  s!"random noise grid: {grid.count} points on [{Number.messageText grid.start}, "
    ++ s!"{Number.messageText stop}]"

/-- A draw has to give one sample for each point of the grid. -/
def checkDraw (samples points : List Float) : Except Error Unit :=
  if samples.length = points.length then .ok ()
  else .error (.malformedOutput sourceName (.sampleCount samples.length points.length))

/-- The pulses with one more of them perturbed by a fresh draw. -/
def drawFor (noise : RandomNoise σ) (points : List Float) (pulses : List Pulse) (i : Nat) :
    Action σ (List Pulse) := do
  let samples ← noise.sampler noise.parameters points.length
  checkDraw samples points
  perturbAt (.samples samples) (some points) pulses i

/-- The shared grid of the pulses, which is recorded. -/
def sharedGrid (noise : RandomNoise σ) (pulses : List Pulse) : Action σ SampleGrid := do
  let (start, stop) ← sharedSpan pulses
  let grid ← SampleGrid.make? start stop noise.dt
  Action.record .trace (gridText grid stop)
  return grid

/-- The answer of the source. Without a selected pulse there is neither grid nor draw. -/
def noisyPulses (noise : RandomNoise σ) (pulses : List Pulse) : Action σ Outcome := do
  let indices ← selectIndices noise.indices pulses.length
  if indices.isEmpty then return .unchanged
  let grid ← noise.sharedGrid pulses
  let noisy ← indices.foldlM (noise.drawFor grid.points) pulses
  return .pulses noisy

def toSource (noise : RandomNoise σ) : Source σ where
  name := sourceName
  noisyPulses _ pulses _ := noise.noisyPulses pulses

def parameterText (e : String × Float) : String :=
  s!"{Text.quoted e.1}: {Number.inspectionText e.2}"

def inspect (noise : RandomNoise σ) : String :=
  let parameters := ", ".intercalate (noise.parameters.entries.map parameterText)
  "RandomNoise \x7b dt: " ++ Number.inspectionText noise.dt
    ++ ", params: \x7b" ++ parameters ++ "\x7d, indices: "
    ++ Text.optional (noise.indices.map Text.naturals) ++ ", .. \x7d"

end RandomNoise

end PulseNoise
