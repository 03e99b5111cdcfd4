import PulseNoise.Description
import PulseNoise.Pipeline

/-!
# Processors

Options and sources that are kept together for many runs. What the sources remember from one run
to the next is in the state that is passed from run to run.
-/

namespace PulseNoise

/-- The version of the library. -/
def version : String := "0.1.0"

/-- Options and sources that are kept together for many runs. -/
structure Processor (σ : Type) where
  options : Options
  sources : List (Source σ)

namespace Processor

variable {σ : Type}

def ofOptions (options : Options) : Processor σ := ⟨options, []⟩

/-- A processor with the sources of a list of descriptions, over their generators. -/
def ofDescriptions (options : Options) (descriptions : List Description) :
    Except Error (Processor (List Sampling.Generator)) := do
  let sources ← Description.buildAll descriptions
  return ⟨options, sources.map (·.toSource)⟩

/-- The processor over a larger state, of which its sources keep to one part. -/
def within {τ : Type} (cell : Cell σ τ) (processor : Processor τ) : Processor σ :=
  ⟨processor.options, processor.sources.map (·.within cell)⟩

/-- The processor with one more source at the end. -/
def addSource (processor : Processor σ) (source : Source σ) : Processor σ :=
  { processor with sources := processor.sources ++ [source] }

def process (processor : Processor σ) (pulses : List Pulse) : Action σ (List Pulse) :=
  PulseNoise.process pulses processor.sources processor.options

def inspect (processor : Processor σ) : String :=
  let names := processor.sources.map fun source => Text.quoted source.name
  "NoiseProcessor \x7b options: " ++ processor.options.inspect
    ++ ", noise_list: " ++ Text.bracketed names ++ " \x7d"

end Processor

end PulseNoise
