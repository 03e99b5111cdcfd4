import PulseNoise.Operator.Algebra
import PulseNoise.Source.Basic

/-!
# Relaxation

Amplitude damping and dephasing of every qubit, given by the two time scales T1 and T2 and
written to the accumulator as collapse operators.

* `RelaxationTime.broadcast` gives every qubit its time and checks the times.
* `effectiveT2` is the dephasing time that is left when damping is accounted for.
* `Relaxation.collapseOperators` are the operators of one qubit.
-/

namespace PulseNoise

inductive RelaxationTime
  /-- The same for all qubits. -/
  | uniform (time : Float)
  /-- One entry for each qubit, none where the qubit does not relax. -/
  | perQubit (times : List (Option Float))
  deriving BEq, DecidableEq, Repr

namespace RelaxationTime

/-- A relaxation time has to be positive, which a NaN is not. -/
def check (name : String) (value : Float) : Except Error Float :=
  if 0.0 < value then .ok value else .error (.invalidRelaxationTime name value)

/-- The entry of one qubit, checked when there is one. -/
def checkEntry (name : String) : Option Float → Except Error (Option Float)
  | none => .ok none
  | some value => some <$> check name value

/-- The times of so many qubits. -/
def broadcast (time : Option RelaxationTime) (name : String) (qubits : Nat) :
    Except Error (List (Option Float)) :=
  match time with
  | none => .ok (List.replicate qubits none)
  | some (uniform t) => do
    let t ← check name t
    return List.replicate qubits (some t)
  | some (perQubit times) =>
    if times.length = qubits then times.mapM (checkEntry name)
    else .error (.relaxationLength name times.length qubits)

end RelaxationTime

/-- The time of pure dephasing that, together with damping, gives the dephasing time `t2`. It is
infinite when `t2` is twice `t1`, and `t2` must not be longer than that. -/
def effectiveT2 (t1 : Option Float) (t2 : Float) : Except Error Float :=
  match t1 with
  | none => .ok t2
  | some t1 =>
    if 2.0 * t1 < t2 then .error (.invalidT2 t1 t2)
    else .ok (1.0 / (1.0 / t2 - 1.0 / (2.0 * t1)))

/-- Relaxation with optional time scales. -/
structure Relaxation where
  t1 : Option RelaxationTime
  t2 : Option RelaxationTime
  /-- The qubits acted on; all of them when absent. -/
  targets : Option (List Nat)
  deriving BEq, DecidableEq, Repr

namespace Relaxation

def ofTimes (t1 t2 : Option RelaxationTime) : Relaxation := ⟨t1, t2, none⟩

def uniform (t1 t2 : Float) : Relaxation := ofTimes (some (.uniform t1)) (some (.uniform t2))

def withTargets (noise : Relaxation) (targets : List Nat) : Relaxation :=
  { noise with targets := some targets }

def damping (d : Nat) (t1 : Float) : Operator := (Operator.destroy d).scale (1.0 / t1.sqrt)

def dephasing (d : Nat) (t2Effective : Float) : Operator :=
  (Operator.num d).scale (2.0 / (2.0 * t2Effective).sqrt)

/-- The collapse operators of one qubit with `d` levels: damping, then dephasing. -/
def collapseOperators (d : Nat) (t1 t2 : Option Float) : Except Error (List Operator) := do
  let damped := (t1.map (damping d)).toList
  match t2 with
  | none => return damped
  | some t2 =>
    let t2Effective ← effectiveT2 t1 t2
    return damped ++ [dephasing d t2Effective]

/-- The accumulator with the collapse operators of one qubit. -/
def relaxQubit (dims : List Nat) (t1s t2s : List (Option Float)) (accumulator : Pulse) (q : Nat) :
    Except Error Pulse := do
  let operators ← collapseOperators (← entry dims q) (← entry t1s q) (← entry t2s q)
  operators.foldlM (fun acc operator => acc.addLindblad operator [q] none .constant) accumulator

/-- The accumulator with the collapse operators of every targeted qubit. -/
def accumulate (noise : Relaxation) (dims : List Nat) (accumulator : Pulse) :
    Except Error Pulse := do
  let t1s ← RelaxationTime.broadcast noise.t1 "t1" dims.length
  let t2s ← RelaxationTime.broadcast noise.t2 "t2" dims.length
  let targets := noise.targets.getD (List.range dims.length)
  checkTargets targets dims.length
  targets.foldlM (relaxQubit dims t1s t2s) accumulator

def toSource {σ : Type} (noise : Relaxation) : Source σ where
  name := "relaxation"
  isDevice := true
  noisyPulses dims pulses accumulator := do
    let accumulator' ← noise.accumulate dims accumulator
    return .pulsesAndAccumulator pulses accumulator'

end Relaxation

end PulseNoise
