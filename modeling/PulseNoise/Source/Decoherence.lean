import PulseNoise.Source.Basic

/-!
# Decoherence

Lindblad noise from collapse operators given by the user, written to the accumulator. The
operators act on listed targets, on all subsystems by default, or, when broadcast, each
single-qubit operator acts on every qubit in turn.
-/

namespace PulseNoise

/-- Decoherence from fixed collapse operators. -/
structure Decoherence where
  collapse : List Operator
  /-- The subsystems acted on; all of them when absent. -/
  targets : Option (List Nat)
  /-- The grid of a rate that depends on time. -/
  grid : Option (List Float)
  coefficient : Coefficient
  /-- Whether each operator acts on every qubit. -/
  onEachQubit : Bool
  deriving DecidableEq

namespace Decoherence

/-- Collapse operators on all subsystems, at a constant rate. -/
def ofOperators (collapse : List Operator) : Decoherence := ⟨collapse, none, none, .constant, false⟩

def single (operator : Operator) : Decoherence := ofOperators [operator]

/-- Single-qubit collapse operators on every qubit; the first operator that is not one for a
single qubit is reported. -/
def broadcast (collapse : List Operator) : Except Error Decoherence :=
  match collapse.find? (!·.isSingleQubit) with
  | some operator => .error (.notSingleQubit operator.dims)
  | none => .ok { ofOperators collapse with onEachQubit := true }

def withTargets (noise : Decoherence) (targets : List Nat) : Decoherence :=
  { noise with targets := some targets }

def withTimeDependence (noise : Decoherence) (grid samples : List Float) : Decoherence :=
  { noise with grid := some grid, coefficient := .samples samples }

/-- The places of each operator on a system of so many subsystems. -/
def places (noise : Decoherence) (count : Nat) : List (List Nat) :=
  if noise.onEachQubit then (List.range count).map ([·])
  else [noise.targets.getD (List.range count)]

/-- The accumulator with one operator put on one place. -/
def place (noise : Decoherence) (dims : List Nat) (accumulator : Pulse) (operator : Operator)
    (targets : List Nat) : Except Error Pulse := do
  checkPlacement operator targets dims
  accumulator.addLindblad operator targets noise.grid noise.coefficient

/-- The accumulator with every operator on all of its places, operator by operator. -/
def accumulate (noise : Decoherence) (dims : List Nat) (accumulator : Pulse) :
    Except Error Pulse :=
  noise.collapse.foldlM
    (fun acc operator =>
      (noise.places dims.length).foldlM (fun acc' targets => noise.place dims acc' operator targets)
        acc)
    accumulator

def toSource {σ : Type} (noise : Decoherence) : Source σ where
  name := "decoherence"
  isDevice := true
  noisyPulses dims pulses accumulator := do
    let accumulator' ← noise.accumulate dims accumulator
    return .pulsesAndAccumulator pulses accumulator'

end Decoherence

end PulseNoise
