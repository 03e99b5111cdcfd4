import PulseNoise.Operator.Basic

/-!
# The algebra of operators

The tensor product, which lists the subsystems of its first factor before those of the second, the
adjoint, scaling, and the product, sum and difference of operators on the same subsystems. Only
these last three can fail, and only on unequal dimensions.
-/

namespace PulseNoise.Operator

def tensor (a b : Operator) : Operator := ⟨a.matrix.kronecker b.matrix, a.dims ++ b.dims⟩

def dag (a : Operator) : Operator := ⟨a.matrix.adjoint, a.dims⟩

def create (d : Nat) : Operator := (destroy d).dag

def scale (a : Operator) (factor : Float) : Operator := ⟨a.matrix.map (.scale factor), a.dims⟩

/-- An operation on operators with equal dimensions, which the result keeps. -/
def combine (verb : String) (f : DenseMatrix → DenseMatrix → DenseMatrix) (a b : Operator) :
    Except Error Operator :=
  if a.dims = b.dims then .ok ⟨f a.matrix b.matrix, a.dims⟩
  else .error (.dimensionMismatch (.unequalDims verb a.dims b.dims))

def mul (a b : Operator) : Except Error Operator := combine "multiply" .mul a b

def add (a b : Operator) : Except Error Operator := combine "add" (.zipWith (· + ·)) a b

def sub (a b : Operator) : Except Error Operator := combine "subtract" (.zipWith (· - ·)) a b

end PulseNoise.Operator
