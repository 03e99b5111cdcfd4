import PulseNoise.Proofs.Formula
import PulseNoise.Proofs.Negation
import PulseNoise.Proofs.Resonance

/-!
# The adjoint and the algebra of operators

The adjoint changes the sign of every imaginary part and exchanges rows and columns. It agrees with
the tensor product, with scaling, with sums and with differences, although all of these round: no
result is rounded otherwise than its counterpart. The entries are compared as numbers, so that the
two zeros are one, and the entries may be infinite or not a number.

* `Scalar.Same` and `Operator.Same` compare entries and operators as numbers, and
  `Operator.Same.beq` says that finite operators are then equal.
* `DenseMatrix.get_kronecker_index` is the place of a product of entries.
* `Operator.dag_compatible` draws the conclusions for all operators.
-/

namespace PulseNoise

open Number

/-! ## Entries -/

/-- Both parts are the same numbers. -/
structure Scalar.Same (z w : Scalar) : Prop where
  re : Number.Same z.re w.re
  im : Number.Same z.im w.im

namespace Scalar

variable {z w z' w' : Scalar}

theorem Same.refl (z : Scalar) : z.Same z := ⟨.refl _, .refl _⟩

theorem Same.trans {v : Scalar} (h : z.Same w) (h' : w.Same v) : z.Same v :=
  ⟨h.re.trans h'.re, h.im.trans h'.im⟩

theorem Same.add (h : z.Same z') (h' : w.Same w') : (z + w).Same (z' + w') :=
  ⟨h.re.add h'.re, h.im.add h'.im⟩

theorem Same.sub (h : z.Same z') (h' : w.Same w') : (z - w).Same (z' - w') :=
  ⟨h.re.sub h'.re, h.im.sub h'.im⟩

theorem Same.beq (h : z.Same w) (hfinite : z.re.isFinite = true ∧ z.im.isFinite = true) :
    (z == w) = true := by
  change (z.re == w.re && z.im == w.im) = true
  rw [h.re.beq hfinite.1, h.im.beq hfinite.2]
  rfl

theorem conj_zero : (0 : Scalar).conj.Same 0 := ⟨.refl _, .zeros _ _⟩

theorem conj_conj (z : Scalar) : z.conj.conj.Same z := ⟨.refl _, same_neg_neg _⟩

theorem conj_add (z w : Scalar) : (z + w).conj.Same (z.conj + w.conj) :=
  ⟨.refl _, same_neg_add _ _⟩

theorem conj_sub (z w : Scalar) : (z - w).conj.Same (z.conj - w.conj) :=
  ⟨.refl _, same_neg_sub _ _⟩

theorem conj_scale (factor : Float) (z : Scalar) :
    (z.scale factor).conj.Same (z.conj.scale factor) := ⟨.refl _, same_neg_mul_left _ _⟩

/-- The real parts are the same computation, since two changes of sign cancel in a product. -/
theorem conj_mul (z w : Scalar) : (z * w).conj.Same (z.conj * w.conj) := by
  constructor
  · change Number.Same (z.re * w.re - z.im * w.im) (z.re * w.re - -z.im * -w.im)
    rw [double_neg_mul_neg]
    exact .refl _
  · change Number.Same (-(z.re * w.im + z.im * w.re)) (z.re * -w.im + -z.im * w.re)
    exact (same_neg_add _ _).trans ((same_neg_mul _ _).add (same_neg_mul_left _ _))

end Scalar

/-! ## Matrices -/

/-- Lists whose entries are equal place by place are equal, also where equality is not that of the
logic. -/
theorem beq_of_getElem {α : Type} [BEq α] {xs ys : List α} (hlength : xs.length = ys.length)
    (h : ∀ k (hk : k < xs.length), (xs[k] == ys[k]) = true) : (xs == ys) = true := by
  change xs.beq ys = true
  rw [List.beq_eq_isEqv, List.isEqv_eq_decide, dif_pos hlength, decide_eq_true_iff]
  exact h

namespace DenseMatrix

variable {a b : DenseMatrix} {i j k l : Nat}

theorem get_outside (h : ¬ (i < a.rows ∧ j < a.cols)) : a.get i j = 0 := dif_neg h

/-- The entries row by row, by their places in the list. -/
theorem get_div_mod (hk : k < a.rows * a.cols) :
    a.get (k / a.cols) (k % a.cols) = a.entries[k] := by
  obtain ⟨hi, hj⟩ := index_split hk
  simp [get, hi, hj, Nat.div_add_mod']

theorem rows_adjoint (a : DenseMatrix) : a.adjoint.rows = a.cols := rfl

theorem cols_adjoint (a : DenseMatrix) : a.adjoint.cols = a.rows := rfl

theorem get_adjoint (hi : i < a.cols) (hj : j < a.rows) : a.adjoint.get i j = (a.get j i).conj :=
  get_ofFn _ hi hj

/-- Outside, there are zeros on both sides. -/
theorem same_get_adjoint (a : DenseMatrix) (i j : Nat) :
    (a.get j i).conj.Same (a.adjoint.get i j) := by
  by_cases h : i < a.cols ∧ j < a.rows
  · rw [get_adjoint h.1 h.2]
    exact .refl _
  · rw [get_outside (a := a.adjoint) h, get_outside fun hin => h hin.symm]
    exact Scalar.conj_zero

/-- The Kronecker product places the second matrix at each entry of the first. -/
theorem get_kronecker_index (hi : i < a.rows) (hj : j < a.cols) (hk : k < b.rows)
    (hl : l < b.cols) :
    (a.kronecker b).get (i * b.rows + k) (j * b.cols + l) = a.get i j * b.get k l := by
  rw [get_kronecker (index_lt hi hk) (index_lt hj hl), index_div hk, index_div hl, index_mod hk,
    index_mod hl]

/-- The same shape, with entries that are the same as numbers. -/
structure Same (a b : DenseMatrix) : Prop where
  rows_eq : a.rows = b.rows
  cols_eq : a.cols = b.cols
  entries : ∀ i j, i < a.rows → j < a.cols → (a.get i j).Same (b.get i j)

theorem same_adjoint_adjoint (a : DenseMatrix) : a.adjoint.adjoint.Same a := by
  refine ⟨rfl, rfl, fun i j (hi : i < a.rows) (hj : j < a.cols) => ?_⟩
  rw [get_adjoint (a := a.adjoint) hi hj, get_adjoint hj hi]
  exact Scalar.conj_conj _

/-- An index of the product splits alike before and after rows and columns are exchanged. -/
theorem same_adjoint_kronecker (a b : DenseMatrix) :
    (a.kronecker b).adjoint.Same (a.adjoint.kronecker b.adjoint) := by
  refine ⟨rfl, rfl, fun i j (hi : i < a.cols * b.cols) (hj : j < a.rows * b.rows) => ?_⟩
  obtain ⟨hi₁, hi₂⟩ := index_split hi
  obtain ⟨hj₁, hj₂⟩ := index_split hj
  have hright := get_kronecker (a := a.adjoint) (b := b.adjoint) hi hj
  rw [rows_adjoint, cols_adjoint, get_adjoint hi₁ hj₁, get_adjoint hi₂ hj₂] at hright
  rw [get_adjoint (a := a.kronecker b) hi hj, get_kronecker hj hi, hright]
  exact Scalar.conj_mul _ _

theorem same_adjoint_map (a : DenseMatrix) {f : Scalar → Scalar}
    (hconj : ∀ z, (f z).conj.Same (f z.conj)) : (a.map f).adjoint.Same (a.adjoint.map f) := by
  refine ⟨rfl, rfl, fun i j (hi : i < a.cols) (hj : j < a.rows) => ?_⟩
  rw [get_adjoint (a := a.map f) hi hj, get_map f hj hi, get_map (a := a.adjoint) f hi hj,
    get_adjoint hi hj]
  exact hconj _

/-- The second matrix may have another shape than the first. -/
theorem same_adjoint_zipWith (a b : DenseMatrix) {f : Scalar → Scalar → Scalar}
    (hconj : ∀ z w, (f z w).conj.Same (f z.conj w.conj))
    (hcongr : ∀ z w w', w.Same w' → (f z w).Same (f z w')) :
    (a.zipWith f b).adjoint.Same (a.adjoint.zipWith f b.adjoint) := by
  refine ⟨rfl, rfl, fun i j (hi : i < a.cols) (hj : j < a.rows) => ?_⟩
  rw [get_adjoint (a := a.zipWith f b) hi hj, get_zipWith f hj hi,
    get_zipWith (a := a.adjoint) f hi hj, get_adjoint hi hj]
  exact (hconj _ _).trans (hcongr _ _ _ (same_get_adjoint _ _ _))

/-- Matrices that are the same as numbers are equal for the program when one is finite. -/
theorem Same.beq (h : a.Same b) (hfinite : ∀ i j, i < a.rows → j < a.cols →
    (a.get i j).re.isFinite = true ∧ (a.get i j).im.isFinite = true) : (a == b) = true := by
  have hlength : a.entries.toList.length = b.entries.toList.length := by
    simp [h.rows_eq, h.cols_eq]
  have hentries : (a.entries.toList == b.entries.toList) = true := by
    refine beq_of_getElem hlength fun k hk => ?_
    have hin : k < a.rows * a.cols := by simpa using hk
    have hin' : k < b.rows * b.cols := by rwa [← h.rows_eq, ← h.cols_eq]
    obtain ⟨hi, hj⟩ := index_split hin
    rw [Vector.getElem_toList, Vector.getElem_toList, ← get_div_mod hin, ← get_div_mod hin',
      ← h.cols_eq]
    exact (h.entries _ _ hi hj).beq (hfinite _ _ hi hj)
  change (a.rows == b.rows && a.cols == b.cols && a.entries.toList == b.entries.toList) = true
  rw [hentries, h.rows_eq, h.cols_eq, beq_self_eq_true, beq_self_eq_true]
  rfl

end DenseMatrix

/-! ## Operators -/

/-- The same dimensions, and matrices that are the same as numbers. -/
structure Operator.Same (a b : Operator) : Prop where
  dims_eq : a.dims = b.dims
  matrix : a.matrix.Same b.matrix

namespace Operator

variable {a b : Operator}

/-- Two answers that are both an operator or both an error; the second operator is the adjoint of
the first. -/
structure AdjointAnswers (x y : Except Error Operator) : Prop where
  isOk_iff : (∃ c, x = .ok c) ↔ ∃ d, y = .ok d
  same : ∀ c d, x = .ok c → y = .ok d → c.dag.Same d

/-- An operation on entries that agrees with the adjoint does so on operators. -/
theorem adjointAnswers_combine (verb : String) {f : Scalar → Scalar → Scalar}
    (hconj : ∀ z w, (f z w).conj.Same (f z.conj w.conj))
    (hcongr : ∀ z w w', w.Same w' → (f z w).Same (f z w')) (a b : Operator) :
    AdjointAnswers (combine verb (.zipWith f) a b) (combine verb (.zipWith f) a.dag b.dag) := by
  constructor
  · simp only [combine_eq_ok_iff, exists_and_left, exists_eq, and_true]
    exact Iff.rfl
  · intro c d hc hd
    obtain ⟨-, rfl⟩ := combine_eq_ok_iff.1 hc
    obtain ⟨-, rfl⟩ := combine_eq_ok_iff.1 hd
    exact ⟨rfl, DenseMatrix.same_adjoint_zipWith _ _ hconj hcongr⟩

theorem adjointAnswers_add (a b : Operator) : AdjointAnswers (a.add b) (a.dag.add b.dag) :=
  adjointAnswers_combine "add" Scalar.conj_add (fun z _ _ h => (Scalar.Same.refl z).add h) a b

theorem adjointAnswers_sub (a b : Operator) : AdjointAnswers (a.sub b) (a.dag.sub b.dag) :=
  adjointAnswers_combine "subtract" Scalar.conj_sub (fun z _ _ h => (Scalar.Same.refl z).sub h) a b

/-- Operators that are the same as numbers are equal for the program when one is finite. -/
theorem Same.beq (h : a.Same b) (hfinite : a.Finite) : (a == b) = true := by
  change (a.matrix == b.matrix && a.dims == b.dims) = true
  rw [h.matrix.beq hfinite, h.dims_eq, beq_self_eq_true]
  rfl

/-- **The adjoint is compatible with the algebra.** For all operators, of any shapes and with any
entries: the adjoint of the adjoint is the operator. The adjoint of a tensor product is the tensor
product of the adjoints, with the same list of dimensions, and an entry of a tensor product stands
where the places of its factors say. The adjoint of a scaled operator is the scaled adjoint. A sum
or a difference is an operator exactly when that of the adjoints is, and that one is its adjoint.
All this compares entries as numbers, so that finite operators are equal for the program. -/
theorem dag_compatible (a b : Operator) :
    (a.dag.dag.Same a ∧ a.dag.dims = a.dims) ∧
    ((a.tensor b).dag.Same (a.dag.tensor b.dag) ∧
      (a.dag.tensor b.dag).dims = a.dims ++ b.dims ∧
      ∀ i j k l, i < a.matrix.rows → j < a.matrix.cols → k < b.matrix.rows → l < b.matrix.cols →
        (a.tensor b).matrix.get (i * b.matrix.rows + k) (j * b.matrix.cols + l) =
          a.matrix.get i j * b.matrix.get k l) ∧
    (∀ factor, (a.scale factor).dag.Same (a.dag.scale factor)) ∧
    AdjointAnswers (a.add b) (a.dag.add b.dag) ∧
    AdjointAnswers (a.sub b) (a.dag.sub b.dag) ∧
    ∀ c d : Operator, c.Same d → c.Finite → (c == d) = true := by
  refine ⟨⟨⟨rfl, a.matrix.same_adjoint_adjoint⟩, rfl⟩,
    ⟨⟨rfl, a.matrix.same_adjoint_kronecker b.matrix⟩, rfl, ?_⟩, fun factor => ?_,
    adjointAnswers_add a b, adjointAnswers_sub a b, fun c d h hfinite => h.beq hfinite⟩
  · intro i j k l hi hj hk hl
    exact DenseMatrix.get_kronecker_index hi hj hk hl
  · exact ⟨rfl, a.matrix.same_adjoint_map (Scalar.conj_scale factor)⟩

end Operator

end PulseNoise
