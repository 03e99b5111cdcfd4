import PulseNoise.Options
import PulseNoise.Source.BuiltIn

/-!
# The noise pipeline

A run folds a list of sources over the caller's pulses and a fresh accumulator. The sources run in
their order, and after them the relaxation that the options imply. Device noise is skipped unless
the options ask for it; when they do, they are validated first and the accumulator is returned as
one more pulse at the end.

* `runSources` is the fold.
* `process` is a whole run.
-/

namespace PulseNoise

variable {σ : Type}

/-- Whether a source is left out of a run. -/
def isSkipped (deviceNoise : Bool) (source : Source σ) : Bool := source.isDevice && !deviceNoise

/-- One source of a run: applied, or skipped; either is recorded. -/
def runSource (deviceNoise : Bool) (dims : List Nat) (work : Workpiece) (source : Source σ) :
    Action σ Workpiece :=
  if isSkipped deviceNoise source then do
    Action.record .debug s!"skipping device noise '{source.name}'"
    return work
  else do
    Action.record .debug s!"applying noise '{source.name}'"
    source.apply dims work

def runSources (deviceNoise : Bool) (dims : List Nat) (sources : List (Source σ))
    (work : Workpiece) : Action σ Workpiece :=
  sources.foldlM (runSource deviceNoise dims) work

/-- The end of a run: the accumulator follows the pulses when device noise is on. -/
def finish (deviceNoise : Bool) (work : Workpiece) : Action σ (List Pulse) :=
  if deviceNoise then do
    Action.record .trace
      (s!"systematic noise: {work.accumulator.coherent.length} coherent, "
        ++ s!"{work.accumulator.lindblad.length} lindblad terms")
    return work.pulses ++ [work.accumulator]
  else return work.pulses

/-- The sources of a run in their order, the implied relaxation last. -/
def allSources (sources : List (Source σ)) (options : Options) : List (Source σ) :=
  sources ++ (options.impliedRelaxation.map (·.toSource)).toList

/-- A run: the pulses with the noise of every source. -/
def process (pulses : List Pulse) (sources : List (Source σ)) (options : Options) :
    Action σ (List Pulse) := do
  let dims ← options.system.resolve
  if options.deviceNoise then options.validate
  let work ← runSources options.deviceNoise dims (allSources sources options)
    ⟨pulses, Pulse.systematic options.interpolation⟩
  finish options.deviceNoise work

end PulseNoise
