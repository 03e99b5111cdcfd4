import PulseNoise.Error
import PulseNoise.Number.Order
import PulseNoise.Operator.DenseMatrix

/-!
# Operators on composite systems

A square matrix together with the dimensions of the subsystems that it acts on. This module holds
the type, the checked constructor, the elementary operators and what can be asked of an operator;
the algebra is in `PulseNoise.Operator.Algebra`.

* `Operator.ofMatrix` accepts a square matrix whose side is the product of the dimensions. The
  product is computed in 64 bits, and it is a failure of its own that it does not fit.
* `Operator.destroy`, `create`, `num`, `identity`, `projector` are the operators of one subsystem
  with a given number of levels, `sigmaz` and `sigmax` those of a qubit.
-/

namespace PulseNoise

/-- An operator on the subsystems whose dimensions it lists. -/
structure Operator where
  matrix : DenseMatrix
  dims : List Nat
  deriving BEq, DecidableEq

namespace Operator

/-- Entries up to this absolute value count as zero. -/
def zeroTolerance : Float := 1e-12

/-- A product with one more factor. It fails when it leaves the 64-bit range; `factors` are all of
them. -/
def wordTimes (factors : List Nat) (acc d : Nat) : Except Error Nat :=
  if acc * d < UInt64.size then .ok (acc * d) else .error (.overflow factors)

/-- The product of a list of dimensions, factor by factor. A zero that comes after the failure does
not help. -/
def wordProduct (dims : List Nat) : Except Error Nat := dims.foldlM (wordTimes dims) 1

/-- An operator from a matrix and the dimensions of its subsystems. -/
def ofMatrix (matrix : DenseMatrix) (dims : List Nat) : Except Error Operator :=
  if matrix.rows ≠ matrix.cols then
    .error (.dimensionMismatch (.notSquare matrix.rows matrix.cols))
  else do
    let total ← wordProduct dims
    if dims.isEmpty || total ≠ matrix.rows then
      .error (.dimensionMismatch (.wrongDims dims matrix.rows))
    else return ⟨matrix, dims⟩

/-- An operator on a single subsystem, which takes all of the matrix. -/
def ofSquare (matrix : DenseMatrix) : Except Error Operator := ofMatrix matrix [matrix.rows]

def identity (d : Nat) : Operator := ⟨.diagonal d fun _ => 1, [d]⟩

/-- The lowering operator on `d` levels: level `n` goes to `n - 1` with weight `√n`. -/
def destroy (d : Nat) : Operator :=
  ⟨.ofFn d d fun i j => if j = i + 1 then .ofReal (Number.ofCount j).sqrt else 0, [d]⟩

def num (d : Nat) : Operator := ⟨.diagonal d fun n => .ofReal (Number.ofCount n), [d]⟩

def sigmaz : Operator := ⟨.diagonal 2 fun n => if n = 0 then 1 else .ofReal (-1.0), [2]⟩

def sigmax : Operator := ⟨.ofFn 2 2 fun i j => if i = j then 0 else 1, [2]⟩

/-- The projector onto some of `d` levels; the first level that there is not is reported. -/
def projector (d : Nat) (levels : List Nat) : Except Error Operator :=
  match levels.find? (d ≤ ·) with
  | some level => .error (.dimensionMismatch (.noLevel level d))
  | none => .ok ⟨.diagonal d fun n => if n ∈ levels then 1 else 0, [d]⟩

def side (a : Operator) : Nat := a.matrix.rows

def subsystems (a : Operator) : Nat := a.dims.length

def isSingleQubit (a : Operator) : Bool := a.dims = [2]

/-- Whether every entry vanishes up to the tolerance. -/
def isZero (a : Operator) : Bool := a.matrix.all fun c => c.abs ≤ zeroTolerance

/-- Whether two operators on the same subsystems differ nowhere by more than a tolerance. -/
def approxEq (a b : Operator) (tolerance : Float) : Bool :=
  a.dims = b.dims
    && (a.matrix.entries.toList.zip b.matrix.entries.toList).all
      fun (x, y) => (x - y).abs ≤ tolerance

instance : ToString Operator :=
  ⟨fun a => s!"Operator(dims={Text.naturals a.dims}, shape={a.side}x{a.side})"⟩

end Operator

end PulseNoise
