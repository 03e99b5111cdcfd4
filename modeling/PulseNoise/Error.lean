import PulseNoise.Number.Layout
import PulseNoise.Text

/-!
# Failures

Every failure of the library is one value of `Error`, raised at once and fatal: a failing source
ends the run and leaves no partial result. The constructors say what went wrong and carry the
values at fault; the wording is in `Error.message` alone. The four families whose causes are many
have a type of causes of their own, each with a constructor for a text of the caller's.

* `Error.message` is the text of a failure.
* `Error.isInvalidInput` holds of failures that reject an argument.
* `Error.isNoiseFailure` holds of failures raised by a noise source as such.
-/

namespace PulseNoise

/-- Why shapes or dimensions do not agree. -/
inductive DimensionFault
  | notSquare (rows cols : Nat)
  | wrongDims (dims : List Nat) (side : Nat)
  | noLevel (level dim : Nat)
  | unequalDims (verb : String) (left right : List Nat)
  | misplaced (operatorDims targetDims targets : List Nat)
  | other (text : String)
  deriving DecidableEq, Repr

/-- Why an argument is refused. -/
inductive ArgumentFault
  | noSubsystem
  | zeroDimension
  | gridPoint (t : Float)
  | gridSize (start stop step : Float) (limit : Nat)
  | negativeSpread (spread : Float)
  | infiniteSpread (mean spread : Float)
  | emptyRange (low high : Float)
  | other (text : String)
  deriving DecidableEq, Repr

/-- Why a time grid is missing. -/
inductive GridFault
  | samplesWithoutGrid (count : Nat)
  | noSampledPulse
  | other (text : String)
  deriving DecidableEq, Repr

/-- Why the answer of a source cannot be used. -/
inductive OutputFault
  | sampleCount (drawn required : Nat)
  | pulseCount (expected got : Nat)
  | idealAccumulator (label : String)
  | other (text : String)
  deriving DecidableEq, Repr

/-- A failure and the values at fault. -/
inductive Error
  | qubitOutOfRange (qubit qubits : Nat)
  | invalidRelaxationTime (name : String) (value : Float)
  | relaxationLength (name : String) (length qubits : Nat)
  | invalidT2 (t1 t2 : Float)
  | invalidTimeStep (dt : Float)
  | invalidArgument (fault : ArgumentFault)
  | dimensionMismatch (fault : DimensionFault)
  | targetMismatch (subsystems targets : Nat)
  | notSingleQubit (dims : List Nat)
  | coefficientLength (coefficients gridPoints : Nat)
  | missingTimeGrid (fault : GridFault)
  | missingIdealTerm (label : String)
  | pulseIndexOutOfRange (index pulses : Nat)
  | reservedParameter (name : String)
  | malformedOutput (source : String) (fault : OutputFault)
  | parameterLength (name : String) (length required : Nat)
  | json (text : String)
  | noEntry (index length : Nat)
  | overflow (factors : List Nat)
  deriving DecidableEq, Repr

open Number Text

namespace DimensionFault

def message : DimensionFault → String
  | notSquare rows cols => s!"operator must be square, got {rows}x{cols}"
  | wrongDims dims side => s!"dims {naturals dims} do not describe a {side}x{side} matrix"
  | noLevel level dim => s!"level {level} does not exist in a {dim}-level system"
  | unequalDims verb left right =>
    s!"cannot {verb} operators with dims {naturals left} and {naturals right}"
  | misplaced operatorDims targetDims targets =>
    s!"operator dims {naturals operatorDims} do not match target dims {naturals targetDims} on "
      ++ naturals targets
  | other text => text

end DimensionFault

namespace ArgumentFault

def message : ArgumentFault → String
  | noSubsystem => "system must have at least one subsystem"
  | zeroDimension => "subsystem dimension must be positive, got 0"
  | gridPoint t => s!"time grid points must be finite, got {messageText t}"
  | gridSize start stop step limit =>
    s!"time grid on [{messageText start}, {messageText stop}] with step {messageText step}"
      ++ s!" exceeds {limit} points"
  | negativeSpread spread => s!"normal draw needs scale >= 0, got {messageText spread}"
  | infiniteSpread mean spread =>
    s!"normal draw with loc={messageText mean}, scale={messageText spread}: "
      ++ "variation parameter is non-finite in (log)normal distribution"
  | emptyRange low high =>
    s!"uniform draw needs finite low < high, got [{messageText low}, {messageText high})"
  | other text => text

end ArgumentFault

namespace GridFault

def message : GridFault → String
  | samplesWithoutGrid count => s!"coefficient with {count} samples has no time grid"
  | noSampledPulse => "random noise needs at least one sampled pulse"
  | other text => text

end GridFault

namespace OutputFault

def message : OutputFault → String
  | sampleCount drawn required => s!"draw returned {drawn} samples for a grid of {required}"
  | pulseCount expected got => s!"expected {expected} pulses, got {got}"
  | idealAccumulator label => s!"accumulator '{label}' carries an ideal control term"
  | other text => text

end OutputFault

namespace Error

def message : Error → String
  | qubitOutOfRange qubit qubits => s!"Qubit {qubit} out of range: system has {qubits} qubits"
  | invalidRelaxationTime name value =>
    s!"Invalid relaxation time {name}={messageText value}: must be a positive number"
  | relaxationLength name length qubits =>
    s!"Length of {name} does not match the number of qubits: len({name})={length}, N={qubits}"
  | invalidT2 t1 t2 =>
    s!"t1={messageText t1}, t2={messageText t2} does not fulfill 2*t1 >= t2"
  | invalidTimeStep dt =>
    s!"Invalid time step {messageText dt}: must be a positive finite number"
  | invalidArgument fault => s!"Invalid argument: {fault.message}"
  | dimensionMismatch fault => s!"Dimension mismatch: {fault.message}"
  | targetMismatch subsystems targets =>
    s!"Operator acts on {subsystems} subsystem(s) but {targets} target(s) were given"
  | notSingleQubit dims =>
    s!"The operator with dims {naturals dims} is not a single qubit operator, "
      ++ "thus cannot be applied to all qubits"
  | coefficientLength coefficients gridPoints =>
    s!"Coefficient length {coefficients} does not match time grid length {gridPoints}"
  | missingTimeGrid fault => s!"Missing time grid: {fault.message}"
  | missingIdealTerm label => s!"Pulse '{label}' has no ideal control term"
  | pulseIndexOutOfRange index pulses =>
    s!"Pulse index {index} out of range: {pulses} pulses given"
  | reservedParameter name => s!"Parameter '{name}' is predetermined inside the noise object"
  | malformedOutput source fault =>
    s!"Returned value of {source} not understood: {fault.message}"
  | parameterLength name length required =>
    s!"Parameter '{name}' has {length} entries, {required} required"
  | json text => s!"JSON error: {text}"
  | noEntry index length => s!"No entry {index} in a sequence of {length}"
  | overflow factors => s!"The product of {naturals factors} does not fit into 64 bits"

def isInvalidInput : Error → Bool
  | qubitOutOfRange .. | invalidRelaxationTime .. | relaxationLength .. | invalidT2 ..
  | invalidTimeStep .. | invalidArgument .. | targetMismatch .. | notSingleQubit ..
  | coefficientLength .. | reservedParameter .. | parameterLength .. => true
  | _ => false

def isNoiseFailure : Error → Bool
  | reservedParameter .. | malformedOutput .. | parameterLength .. | invalidT2 ..
  | notSingleQubit .. => true
  | _ => false

end Error

/-- The entry of a sequence at an index, which fails when there is none. -/
def entry {α : Type} (xs : List α) (i : Nat) : Except Error α :=
  match xs[i]? with
  | some x => .ok x
  | none => .error (.noEntry i xs.length)

end PulseNoise
