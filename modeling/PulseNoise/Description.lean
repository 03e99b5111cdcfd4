import PulseNoise.Source.BuiltIn

/-!
# Descriptions of sources

A source as data, without the state that it will have in a run: what a configuration holds and
what is exchanged as JSON. Building a description gives the source; the generator of a random
source is put where the caller says.

* `Description.build` builds one source around a cell of the run's state.
* `Description.buildAll` builds a list of sources whose state is the list of their generators.
-/

namespace PulseNoise

open Sampling

/-- What is to be known of a source in order to build it. -/
inductive Description
  | relaxation (noise : Relaxation)
  | amplitude (noise : AmplitudeNoise)
  | random (dt : Float) (kind : DistributionKind) (parameters : Parameters)
      (seed : Option Nat) (indices : Option (List Nat))
  | crosstalk (noise : Crosstalk)

namespace Description

variable {σ : Type}

/-- The source of a description; a random one draws from the generator in the cell. -/
def build (cell : Cell σ Generator) : Description → Except Error (BuiltIn σ)
  | relaxation noise => .ok (.relaxation noise)
  | amplitude noise => .ok (.amplitude noise)
  | random dt kind parameters _ indices => do
    let noise ← RandomNoise.make? dt (Sampler.seeded cell kind) parameters
    return .random { noise with indices := indices }
  | crosstalk noise => .ok (.crosstalk noise)

/-- The generator that a description starts with; without a seed it starts from another number. -/
def generator (unseeded : UInt64) : Description → Generator
  | random _ _ _ seed _ => Generator.start (seed.map Nat.toUInt64) unseeded
  | _ => default

/-- The generator of the source at a place, in the list of the generators of all sources. -/
def generatorCell (place : Nat) : Cell (List Generator) Generator :=
  ⟨fun generators => generators.getD place default, fun g generators => generators.set place g⟩

/-- The sources of a list of descriptions, the first of which has the given place. -/
def buildFrom (place : Nat) : List Description → Except Error (List (BuiltIn (List Generator)))
  | [] => .ok []
  | d :: ds => do
    let source ← d.build (generatorCell place)
    let sources ← buildFrom (place + 1) ds
    return source :: sources

def buildAll (descriptions : List Description) :
    Except Error (List (BuiltIn (List Generator))) :=
  buildFrom 0 descriptions

/-- The state in which the sources of a list of descriptions begin. -/
def generators (unseeded : UInt64) (descriptions : List Description) : List Generator :=
  descriptions.map (generator unseeded)

end Description

end PulseNoise
