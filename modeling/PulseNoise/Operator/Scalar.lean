import PulseNoise.Number.Modulus

/-!
# Complex numbers of doubles

The entries of operators. Every operation rounds each real operation once, in the order written,
so that infinities and NaN spread as the real arithmetic spreads them. The comparison `==` is that
of the doubles: the two zeros are equal, and a NaN equals nothing.
-/

namespace PulseNoise

structure Scalar where
  re : Float
  im : Float
  deriving BEq, DecidableEq, Repr, Inhabited

namespace Scalar

def ofReal (x : Float) : Scalar := ⟨x, 0.0⟩

instance : Zero Scalar := ⟨ofReal 0.0⟩

instance : One Scalar := ⟨ofReal 1.0⟩

instance : Add Scalar := ⟨fun a b => ⟨a.re + b.re, a.im + b.im⟩⟩

instance : Sub Scalar := ⟨fun a b => ⟨a.re - b.re, a.im - b.im⟩⟩

instance : Mul Scalar :=
  ⟨fun a b => ⟨a.re * b.re - a.im * b.im, a.re * b.im + a.im * b.re⟩⟩

def conj (a : Scalar) : Scalar := ⟨a.re, -a.im⟩

/-- The product with a real factor, part by part. -/
def scale (factor : Float) (a : Scalar) : Scalar := ⟨a.re * factor, a.im * factor⟩

def abs (a : Scalar) : Float := Number.modulus a.re a.im

end Scalar

end PulseNoise
