import PulseNoise.Source.Crosstalk
import PulseNoise.Source.Decoherence
import PulseNoise.Source.Random
import PulseNoise.Source.Relaxation

/-!
# The built-in sources

The five mechanisms that the library knows, as one type. Amplitude noise and random noise write to
the pulses, the other three to the accumulator; decoherence and relaxation are device noise.
-/

namespace PulseNoise

/-- A noise source of the library. -/
inductive BuiltIn (σ : Type)
  | decoherence (noise : Decoherence)
  | relaxation (noise : Relaxation)
  | amplitude (noise : AmplitudeNoise)
  | random (noise : RandomNoise σ)
  | crosstalk (noise : Crosstalk)

namespace BuiltIn

variable {σ : Type}

def toSource : BuiltIn σ → Source σ
  | decoherence noise => noise.toSource
  | relaxation noise => noise.toSource
  | amplitude noise => noise.toSource
  | random noise => noise.toSource
  | crosstalk noise => noise.toSource

/-- Whether the source writes to the pulses and not to the accumulator. -/
def writesPulses : BuiltIn σ → Bool
  | amplitude _ | random _ => true
  | _ => false

end BuiltIn

end PulseNoise
