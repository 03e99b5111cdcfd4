import PulseNoise.Operator.Basic

/-!
# Composite systems

A system is a number of qubits or a list of subsystem dimensions. Before anything is placed on it
it is resolved into the list of its dimensions, which has to be non-empty and without zeros;
`checkTargets` and `checkPlacement` then say whether targets exist and whether an operator fits
the subsystems that it is placed on.
-/

namespace PulseNoise

/-- The size of a composite system. -/
inductive System
  /-- So many subsystems with two levels each. -/
  | qubits (count : Nat)
  /-- Subsystems of the listed dimensions. -/
  | subsystems (dims : List Nat)
  deriving DecidableEq, Repr

namespace System

def count : System → Nat
  | qubits n => n
  | subsystems dims => dims.length

def resolve (system : System) : Except Error (List Nat) :=
  if system.count = 0 then .error (.invalidArgument .noSubsystem)
  else match system with
    | qubits n => .ok (List.replicate n 2)
    | subsystems dims =>
      if 0 ∈ dims then .error (.invalidArgument .zeroDimension) else .ok dims

instance : ToString System :=
  ⟨fun
    | qubits n => s!"{n} qubits"
    | subsystems dims => s!"dims {Text.naturals dims}"⟩

end System

/-- Every target has to be below the number of subsystems; the first one that is not is
reported. -/
def checkTargets (targets : List Nat) (subsystems : Nat) : Except Error Unit :=
  match targets.find? (subsystems ≤ ·) with
  | some target => .error (.qubitOutOfRange target subsystems)
  | none => .ok ()

/-- The targets have to exist, and the dimensions of the operator have to be theirs. -/
def checkPlacement (operator : Operator) (targets dims : List Nat) : Except Error Unit := do
  checkTargets targets dims.length
  let targetDims ← targets.mapM (entry dims)
  if operator.dims = targetDims then return ()
  else throw (.dimensionMismatch (.misplaced operator.dims targetDims targets))

end PulseNoise
