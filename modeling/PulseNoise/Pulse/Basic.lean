import PulseNoise.Pulse.Term

/-!
# Control pulses

A pulse carries one ideal control term and the noise terms that the sources have put on it:
coherent terms, which join the generator, and Lindblad terms, which are collapse operators. A
pulse without an ideal term is an accumulator: it gathers the noise of the device as a whole.

* `Pulse.make?` makes a pulse from the parts of its ideal term, `Pulse.systematic` an empty
  accumulator.
* `Pulse.addCoherent` and `Pulse.addLindblad` append one term, or fail and change nothing.
-/

namespace PulseNoise

/-- A control pulse with the noise put on it. -/
structure Pulse where
  label : String
  /-- The ideal control; an accumulator has none. -/
  ideal : Option Term
  /-- How a solver interpolates the pulse, when that is given. -/
  interpolation : Option Interpolation
  /-- Noise that joins the generator. -/
  coherent : List Term
  /-- Collapse operators. -/
  lindblad : List Term
  deriving BEq, DecidableEq

namespace Pulse

def systematicLabel : String := "systematic_noise"

/-- A pulse without noise from the parts of its ideal term. -/
def make? (label : String) (operator : Operator) (targets : List Nat)
    (grid : Option (List Float)) (coefficient : Coefficient) : Except Error Pulse := do
  let ideal ← Term.make? operator targets grid coefficient
  return ⟨label, some ideal, none, [], []⟩

def systematic (interpolation : Option Interpolation) : Pulse :=
  ⟨systematicLabel, none, interpolation, [], []⟩

def withInterpolation (pulse : Pulse) (kind : Interpolation) : Pulse :=
  { pulse with interpolation := some kind }

/-- The pulse with one more coherent term, made from its parts. -/
def addCoherent (pulse : Pulse) (operator : Operator) (targets : List Nat)
    (grid : Option (List Float)) (coefficient : Coefficient) : Except Error Pulse := do
  let term ← Term.make? operator targets grid coefficient
  return { pulse with coherent := pulse.coherent ++ [term] }

/-- The pulse with one more Lindblad term, made from its parts. -/
def addLindblad (pulse : Pulse) (operator : Operator) (targets : List Nat)
    (grid : Option (List Float)) (coefficient : Coefficient) : Except Error Pulse := do
  let term ← Term.make? operator targets grid coefficient
  return { pulse with lindblad := pulse.lindblad ++ [term] }

def isSystematic (pulse : Pulse) : Bool := pulse.ideal.isNone

def hasNoise (pulse : Pulse) : Bool := !pulse.coherent.isEmpty || !pulse.lindblad.isEmpty

def operator (pulse : Pulse) : Option Operator := pulse.ideal.map (·.operator)

/-- The targets of the ideal term; an accumulator has none. -/
def targets (pulse : Pulse) : List Nat := (pulse.ideal.map (·.targets)).getD []

def grid (pulse : Pulse) : Option (List Float) := pulse.ideal.bind (·.grid)

def coefficient (pulse : Pulse) : Option Coefficient := pulse.ideal.map (·.coefficient)

/-- All terms: the ideal one, then coherent noise, then Lindblad noise. -/
def terms (pulse : Pulse) : List Term := pulse.ideal.toList ++ pulse.coherent ++ pulse.lindblad

def WellFormed (pulse : Pulse) : Prop := ∀ term ∈ pulse.terms, term.WellFormed

instance : ToString Pulse :=
  ⟨fun pulse =>
    let control := match pulse.ideal with
      | some term => toString term
      | none => "no ideal control"
    s!"Pulse '{pulse.label}': {control}, {pulse.coherent.length} coherent, "
      ++ s!"{pulse.lindblad.length} lindblad"⟩

end Pulse

end PulseNoise
