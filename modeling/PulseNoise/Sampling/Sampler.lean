import PulseNoise.Run
import PulseNoise.Sampling.Distribution
import PulseNoise.Sampling.Parameters

/-!
# Samplers

A sampler draws a number of samples with named parameters, as a step of a run: what it remembers
between draws is part of the run's state. Any step will do; the built-in samplers keep a seeded
generator in a cell of the state.

* `drawFrom` is one draw from a generator. A draw with refused parameters leaves the generator as
  it was.
* `Sampler.seeded` is the sampler whose generator is in a given cell.
-/

namespace PulseNoise.Sampling

/-- A source of samples: the named parameters and the number of samples wanted. -/
abbrev Sampler (σ : Type) := Parameters → Nat → Action σ (List Float)

def defaultMean : Float := 0.0

def defaultSpread : Float := 1.0

def defaultLow : Float := 0.0

def defaultHigh : Float := 1.0

namespace DistributionKind

/-- The distribution of a kind with named parameters; other names do not matter. -/
def distribution (kind : DistributionKind) (parameters : Parameters) :
    Except Error Distribution :=
  match kind with
  | normal =>
    Distribution.normal? (parameters.getD "loc" defaultMean) (parameters.getD "scale" defaultSpread)
  | uniform =>
    Distribution.uniform? (parameters.getD "low" defaultLow) (parameters.getD "high" defaultHigh)

end DistributionKind

/-- One draw from a generator, and the generator after it. -/
def drawFrom (kind : DistributionKind) (parameters : Parameters) (size : Nat) (g : Generator) :
    Except Error (List Float) × Generator :=
  match kind.distribution parameters with
  | .error e => (.error e, g)
  | .ok d =>
    let (xs, g) := d.samples size g
    (.ok xs, g)

def drawAction (kind : DistributionKind) : Sampler Generator := fun parameters size g =>
  let (result, g) := drawFrom kind parameters size g
  ⟨result, g, []⟩

/-- The sampler that draws from the generator in a cell. -/
def Sampler.seeded {σ : Type} (cell : Cell σ Generator) (kind : DistributionKind) : Sampler σ :=
  fun parameters size => (drawAction kind parameters size).within cell

/-- The generator of a sampler: at the start of the seed's stream, or of that of a number taken
from elsewhere when there is no seed. -/
def Generator.start (seed : Option UInt64) (unseeded : UInt64) : Generator :=
  Generator.ofSeed (seed.getD unseeded)

end PulseNoise.Sampling
