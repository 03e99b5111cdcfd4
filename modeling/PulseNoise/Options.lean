import PulseNoise.Source.Relaxation

/-!
# Options of a run

What a caller sets for one run: the system, optional relaxation times for all of it, whether the
noise of the device is wanted, and how the accumulator is interpolated.

* `Options.impliedRelaxation` is the source that the relaxation times stand for.
* `Options.validate` checks the system and the times before anything runs.
-/

namespace PulseNoise

structure Options where
  system : System
  t1 : Option RelaxationTime
  t2 : Option RelaxationTime
  /-- Whether device noise is applied and the accumulator returned. -/
  deviceNoise : Bool
  /-- The interpolation of the accumulator. -/
  interpolation : Option Interpolation
  deriving BEq, DecidableEq, Repr

namespace Options

/-- A system without relaxation, with device noise off. -/
def ofSystem (system : System) : Options := ⟨system, none, none, false, none⟩

def withT1 (options : Options) (t1 : RelaxationTime) : Options := { options with t1 := some t1 }

def withT2 (options : Options) (t2 : RelaxationTime) : Options := { options with t2 := some t2 }

def withDeviceNoise (options : Options) (enabled : Bool) : Options :=
  { options with deviceNoise := enabled }

def withInterpolation (options : Options) (kind : Interpolation) : Options :=
  { options with interpolation := some kind }

/-- The relaxation that the times stand for, when one of them is given. -/
def impliedRelaxation (options : Options) : Option Relaxation :=
  if options.t1.isNone && options.t2.isNone then none
  else some (Relaxation.ofTimes options.t1 options.t2)

/-- The two times of one qubit have to allow an effective dephasing time. -/
def checkTimes (times : Option Float × Option Float) : Except Error Unit :=
  match times.2 with
  | none => .ok ()
  | some t2 => do
    let _ ← effectiveT2 times.1 t2

/-- The system has to resolve, and every qubit's times have to be possible. -/
def validate (options : Options) : Except Error Unit := do
  let dims ← options.system.resolve
  let t1s ← RelaxationTime.broadcast options.t1 "t1" dims.length
  let t2s ← RelaxationTime.broadcast options.t2 "t2" dims.length
  (t1s.zip t2s).forM checkTimes

instance : ToString Options :=
  ⟨fun options =>
    s!"ProcessOptions(dims={options.system}, t1={options.t1.isSome}, t2={options.t2.isSome}, "
      ++ s!"device_noise={options.deviceNoise})"⟩

end Options

def System.inspect : System → String
  | qubits n => s!"Qubits({n})"
  | subsystems dims => s!"Subsystems({Text.naturals dims})"

def RelaxationTime.inspect : RelaxationTime → String
  | uniform t => s!"Uniform({Number.inspectionText t})"
  | perQubit ts =>
    let entries := ts.map fun t => Text.optional (t.map Number.inspectionText)
    s!"PerQubit({Text.bracketed entries})"

def Interpolation.inspect : Interpolation → String
  | stepFunction => "StepFunc"
  | cubic => "Cubic"

def Options.inspect (options : Options) : String :=
  "ProcessOptions \x7b dims: " ++ options.system.inspect
    ++ ", t1: " ++ Text.optional (options.t1.map (·.inspect))
    ++ ", t2: " ++ Text.optional (options.t2.map (·.inspect))
    ++ s!", device_noise: {options.deviceNoise}"
    ++ ", spline_kind: " ++ Text.optional (options.interpolation.map (·.inspect)) ++ " \x7d"

end PulseNoise
