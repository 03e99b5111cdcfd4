import PulseNoise.Operator.Algebra
import PulseNoise.Proofs.Arithmetic
import Mathlib.Algebra.BigOperators.Intervals

/-!
# Matrices without rounding

The entries of a matrix are doubles, and every operation on them rounds. Where the exact results
are doubles themselves, nothing is rounded, and the entries are those of matrices over the
rationals. A sum needs this of all its partial sums: products are added up one by one, and block by
block.

* `Number.Stands x q` says that a finite double stands for a number, `Scalar.Denotes` that an entry
  does.
* `DenseMatrix.denotes_dot` is the sum of products of two rows.
* `DenseMatrix.IsDiagonal a side f` says that a matrix is diagonal, with the numbers `f`. In a
  product of two such matrices no sum has more than one term, so that `DenseMatrix.IsDiagonal.mul`
  asks for representable products only.
* `DenseMatrix.IsDiagonal.kronecker` is the Kronecker product.
-/

namespace PulseNoise

namespace Number

/-! ## Exact operations -/

/-- A finite double and the number that it stands for. -/
structure Stands (x : Float) (q : Rat) : Prop where
  isFinite : x.isFinite = true
  value_eq : value x = q

/-- A number that a finite double stands for. -/
def Representable (q : Rat) : Prop := ∃ x, Stands x q

variable {x y z : Float} {p q : Rat}

theorem stands_value (h : x.isFinite = true) : Stands x (value x) := ⟨h, rfl⟩

theorem stands_zero : Stands 0.0 0 := ⟨by decide +kernel, by decide +kernel⟩

theorem stands_one : Stands 1.0 1 := ⟨by decide +kernel, by decide +kernel⟩

theorem stands_two : Stands 2.0 2 := ⟨by decide +kernel, by decide +kernel⟩

theorem Stands.representable (h : Stands x q) : Representable q := ⟨x, h⟩

/-- The zeros, of either sign, are the doubles that are equal to zero. -/
theorem beq_zero_iff : (x == 0.0) = true ↔ Stands x 0 := by
  constructor
  · intro h
    have hx : x.isFinite = true := by
      rw [beq_iff_compare] at h
      change x.toModel.unpack.isFinite = true
      revert h
      cases x.toModel.unpack with
      | zero s | finite s m e hm => exact fun _ => rfl
      | infinity s => cases s <;> nofun
      | notANumber => nofun
    rw [beq_iff_value_eq hx stands_zero.isFinite, stands_zero.value_eq] at h
    exact ⟨hx, h⟩
  · intro h
    rw [beq_iff_value_eq h.isFinite stands_zero.isFinite, h.value_eq, stands_zero.value_eq]

/-- A number that a double stands for is rounded to such a double. -/
theorem RoundsTo.stands (h : RoundsTo q z) (hq : Representable q) : Stands z q := by
  obtain ⟨x, hx, rfl⟩ := hq
  obtain ⟨hz, hvalue⟩ := h.exact (isDouble_value hx) (abs_value_lt hx)
  exact ⟨hz, hvalue⟩

theorem Representable.neg (h : Representable q) : Representable (-q) := by
  obtain ⟨x, hx, rfl⟩ := h
  have hround := roundsTo_sub stands_zero.isFinite hx
  rw [stands_zero.value_eq, zero_sub] at hround
  obtain ⟨hfinite, hvalue⟩ := hround.exact (isDouble_value hx).neg (by
    rw [abs_neg]
    exact abs_value_lt hx)
  exact ⟨_, hfinite, hvalue⟩

namespace Stands

theorem add (hx : Stands x p) (hy : Stands y q) (h : Representable (p + q)) :
    Stands (x + y) (p + q) := by
  have hround := roundsTo_add hx.isFinite hy.isFinite
  rw [hx.value_eq, hy.value_eq] at hround
  exact hround.stands h

theorem sub (hx : Stands x p) (hy : Stands y q) (h : Representable (p - q)) :
    Stands (x - y) (p - q) := by
  have hround := roundsTo_sub hx.isFinite hy.isFinite
  rw [hx.value_eq, hy.value_eq] at hround
  exact hround.stands h

theorem mul (hx : Stands x p) (hy : Stands y q) (h : Representable (p * q)) :
    Stands (x * y) (p * q) := by
  have hround := roundsTo_mul hx.isFinite hy.isFinite
  rw [hx.value_eq, hy.value_eq] at hround
  exact hround.stands h

/-- Adding a zero, of either sign, does not change the number. -/
theorem add_zero (hx : Stands x p) (hy : Stands y 0) : Stands (x + y) p := by
  simpa using hx.add hy (by simpa using hx.representable)

theorem sub_zero (hx : Stands x p) (hy : Stands y 0) : Stands (x - y) p := by
  simpa using hx.sub hy (by simpa using hx.representable)

theorem mul_zero (hx : Stands x p) (hy : Stands y 0) : Stands (x * y) 0 := by
  simpa using hx.mul hy (by simpa using stands_zero.representable)

theorem zero_mul (hx : Stands x 0) (hy : Stands y q) : Stands (x * y) 0 := by
  simpa using hx.mul hy (by simpa using stands_zero.representable)

end Stands

end Number

open Number

/-! ## Entries -/

/-- An entry that stands for a real number. -/
structure Scalar.Denotes (z : Scalar) (q : Rat) : Prop where
  re : Stands z.re q
  im : Stands z.im 0

namespace Scalar.Denotes

variable {z w : Scalar} {x : Float} {p q : Rat}

theorem ofReal (h : Stands x q) : (Scalar.ofReal x).Denotes q := ⟨h, stands_zero⟩

theorem zero : (0 : Scalar).Denotes 0 := ofReal stands_zero

theorem one : (1 : Scalar).Denotes 1 := ofReal stands_one

theorem add (hz : z.Denotes p) (hw : w.Denotes q) (h : Representable (p + q)) :
    (z + w).Denotes (p + q) := ⟨hz.re.add hw.re h, hz.im.add_zero hw.im⟩

theorem mul (hz : z.Denotes p) (hw : w.Denotes q) (h : Representable (p * q)) :
    (z * w).Denotes (p * q) :=
  ⟨(hz.re.mul hw.re h).sub_zero (hz.im.mul_zero hw.im),
    (hz.re.mul_zero hw.im).add_zero (hz.im.zero_mul hw.re)⟩

theorem one_mul (hz : z.Denotes q) : (1 * z).Denotes q := by
  simpa using one.mul hz (by simpa using hz.re.representable)

theorem scale (hz : z.Denotes q) (hx : Stands x p) (h : Representable (q * p)) :
    (z.scale x).Denotes (q * p) := ⟨hz.re.mul hx h, hz.im.zero_mul hx⟩

end Scalar.Denotes

namespace DenseMatrix

/-! ## Entries of results -/

section Get

variable {a b : DenseMatrix} {i j : Nat}

theorem get_diagonal {side : Nat} (entry : Nat → Scalar) (hi : i < side) (hj : j < side) :
    (diagonal side entry).get i j = if i = j then entry i else 0 := get_ofFn _ hi hj

theorem get_map (f : Scalar → Scalar) (hi : i < a.rows) (hj : j < a.cols) :
    (a.map f).get i j = f (a.get i j) := get_ofFn _ hi hj

theorem get_zipWith (f : Scalar → Scalar → Scalar) (hi : i < a.rows) (hj : j < a.cols) :
    (a.zipWith f b).get i j = f (a.get i j) (b.get i j) := get_ofFn _ hi hj

theorem get_transpose (hi : i < a.cols) (hj : j < a.rows) : a.transpose.get i j = a.get j i :=
  get_ofFn _ hi hj

theorem get_mul (hi : i < a.rows) (hj : j < b.cols) :
    (a.mul b).get i j = a.dot b.transpose i j := get_ofFn _ hi hj

theorem get_kronecker (hi : i < a.rows * b.rows) (hj : j < a.cols * b.cols) :
    (a.kronecker b).get i j =
      a.get (i / b.rows) (j / b.cols) * b.get (i % b.rows) (j % b.cols) := get_ofFn _ hi hj

end Get

/-! ## Sums of products -/

section Products

variable {a b : DenseMatrix} {i j n : Nat} {p q : Nat → Rat}

/-- Products that are added to a partial sum give a later partial sum. -/
theorem denotes_addProducts (ha : ∀ k < n, (a.get i k).Denotes (p k))
    (hb : ∀ k < n, (b.get j k).Denotes (q k))
    (hexact : ∀ lo hi, hi ≤ n → Representable (∑ k ∈ Finset.Ico lo hi, p k * q k))
    {count lo k : Nat} {re im : Float} (hlo : lo ≤ k) (hcount : k + count ≤ n)
    (hre : Stands re (∑ l ∈ Finset.Ico lo k, p l * q l)) (him : Stands im 0) :
    (a.addProducts b i j count k re im).Denotes (∑ l ∈ Finset.Ico lo (k + count), p l * q l) := by
  -- the sum so far is general: it grows with every step
  induction count generalizing k re im with
  | zero => exact ⟨hre, him⟩
  | succ count ih =>
    have hx := ha k (by omega)
    have hy := hb k (by omega)
    have hproduct : Representable (p k * q k) := by
      have := hexact k (k + 1) (by omega)
      rwa [Nat.Ico_succ_singleton, Finset.sum_singleton] at this
    have hnext := Finset.sum_Ico_succ_top hlo fun l => p l * q l
    have hsum := hexact lo (k + 1) (by omega)
    rw [hnext] at hsum
    have hreNext := (hre.add (hx.re.mul hy.re hproduct) hsum).sub_zero (hx.im.mul_zero hy.im)
    rw [← hnext] at hreNext
    have himNext := (him.add_zero (hx.re.mul_zero hy.im)).add_zero (hx.im.zero_mul hy.re)
    have := ih (by omega) (by omega) hreNext himNext
    rwa [show k + 1 + count = k + (count + 1) by omega] at this

/-- The product of two rows is the sum of the products, when all partial sums are doubles. -/
theorem denotes_dot (hcols : a.cols = n) (ha : ∀ k < n, (a.get i k).Denotes (p k))
    (hb : ∀ k < n, (b.get j k).Denotes (q k))
    (hexact : ∀ lo hi, hi ≤ n → Representable (∑ k ∈ Finset.Ico lo hi, p k * q k)) :
    (a.dot b i j).Denotes (∑ k ∈ Finset.Ico 0 n, p k * q k) := by
  have hblocks {m : Nat} (hm : m ≤ (n + blockLength - 1) / blockLength) :
      ((List.range m).foldl (fun sum block => 1 * sum + 1 * a.addProducts b i j
        (min blockLength (n - block * blockLength)) (block * blockLength) 0.0 0.0) 0).Denotes
        (∑ k ∈ Finset.Ico 0 (min (m * blockLength) n), p k * q k) := by
    induction m with
    | zero => simpa using Scalar.Denotes.zero
    | succ m ih =>
      have hfirst : m * blockLength < n := by
        unfold blockLength at hm ⊢
        omega
      have hlast : min ((m + 1) * blockLength) n =
          m * blockLength + min blockLength (n - m * blockLength) := by
        rw [Nat.succ_mul]
        omega
      have hsum := ih (by omega)
      rw [min_eq_left hfirst.le] at hsum
      have hblock : (a.addProducts b i j (min blockLength (n - m * blockLength))
          (m * blockLength) 0.0 0.0).Denotes (∑ k ∈ Finset.Ico (m * blockLength)
          (m * blockLength + min blockLength (n - m * blockLength)), p k * q k) :=
        denotes_addProducts ha hb hexact le_rfl (by omega) (by simpa using stands_zero) stands_zero
      have htotal := Finset.sum_Ico_consecutive (fun k => p k * q k) (Nat.zero_le (m * blockLength))
        (Nat.le_add_right _ (min blockLength (n - m * blockLength)))
      rw [List.range_succ, List.foldl_append, hlast, ← htotal]
      refine hsum.one_mul.add hblock.one_mul ?_
      rw [htotal]
      exact hexact _ _ (by omega)
  have hall := hblocks le_rfl
  rw [min_eq_right (by unfold blockLength; omega)] at hall
  unfold dot
  rw [hcols]
  exact hall

end Products

/-! ## Diagonal matrices -/

/-- A square matrix with the numbers `f` on the diagonal and zeros elsewhere. -/
structure IsDiagonal (a : DenseMatrix) (side : Nat) (f : Nat → Rat) : Prop where
  rows_eq : a.rows = side
  cols_eq : a.cols = side
  entries : ∀ i j, i < side → j < side → (a.get i j).Denotes (if i = j then f i else 0)

variable {a b : DenseMatrix} {m n : Nat} {f g : Nat → Rat}

theorem isDiagonal_diagonal {entry : Nat → Scalar} (h : ∀ i < n, (entry i).Denotes (f i)) :
    (diagonal n entry).IsDiagonal n f := by
  refine ⟨rfl, rfl, fun i j hi hj => ?_⟩
  rw [get_diagonal entry hi hj]
  split
  · exact h i hi
  · exact .zero

namespace IsDiagonal

theorem congr (h : a.IsDiagonal n f) (hfg : ∀ i < n, f i = g i) : a.IsDiagonal n g := by
  refine ⟨h.rows_eq, h.cols_eq, fun i j hi hj => ?_⟩
  rw [← hfg i hi]
  exact h.entries i j hi hj

/-- The entries on the diagonal are scaled by a double; zeros stay zeros. -/
theorem scale (h : a.IsDiagonal n f) {x : Float} {q : Rat} (hx : Stands x q)
    (hexact : ∀ i < n, Representable (f i * q)) :
    (a.map (.scale x)).IsDiagonal n fun i => f i * q := by
  refine ⟨h.rows_eq, h.cols_eq, fun i j hi hj => ?_⟩
  rw [get_map _ (h.rows_eq ▸ hi) (h.cols_eq ▸ hj)]
  have hentry := (h.entries i j hi hj).scale hx
  rw [ite_mul, zero_mul] at hentry
  refine hentry ?_
  split
  · exact hexact i hi
  · exact stands_zero.representable

/-- In a product of diagonal matrices no sum has more than one term. -/
theorem mul (ha : a.IsDiagonal n f) (hb : b.IsDiagonal n g)
    (hexact : ∀ i < n, Representable (f i * g i)) :
    (a.mul b).IsDiagonal n fun i => f i * g i := by
  refine ⟨ha.rows_eq, hb.cols_eq, fun i j hi hj => ?_⟩
  have hcolumn (k : Nat) (hk : k < n) :
      (b.transpose.get j k).Denotes (if k = j then g k else 0) := by
    rw [get_transpose (hb.cols_eq ▸ hj) (hb.rows_eq ▸ hk)]
    exact hb.entries k j hk hj
  have hsum (lo hi' : Nat) : ∑ k ∈ Finset.Ico lo hi', (if i = k then f i else 0) *
      (if k = j then g k else 0) =
        if i ∈ Finset.Ico lo hi' then f i * (if i = j then g i else 0) else 0 := by
    simp only [ite_mul, zero_mul, Finset.sum_ite_eq]
  have hdot := denotes_dot ha.cols_eq (fun k hk => ha.entries i k hi hk) hcolumn (by
    intro lo hi' _
    rw [hsum]
    split_ifs
    · exact hexact i hi
    · simpa using stands_zero.representable
    · exact stands_zero.representable)
  rw [hsum] at hdot
  rw [get_mul (ha.rows_eq ▸ hi) (hb.cols_eq ▸ hj)]
  simpa [hi] using hdot

/-- The Kronecker product of diagonal matrices; an index of it is a pair of their indices. -/
theorem kronecker (ha : a.IsDiagonal m f) (hb : b.IsDiagonal n g)
    (hexact : ∀ i < m, ∀ j < n, Representable (f i * g j)) :
    (a.kronecker b).IsDiagonal (m * n) fun k => f (k / n) * g (k % n) := by
  have hrows : a.rows * b.rows = m * n := by rw [ha.rows_eq, hb.rows_eq]
  have hcols : a.cols * b.cols = m * n := by rw [ha.cols_eq, hb.cols_eq]
  refine ⟨hrows, hcols, fun i j hi hj => ?_⟩
  obtain ⟨hi₁, hi₂⟩ := index_split hi
  obtain ⟨hj₁, hj₂⟩ := index_split hj
  have hiff : i = j ↔ i / n = j / n ∧ i % n = j % n := by
    refine ⟨fun h => by rw [h]; exact ⟨rfl, rfl⟩, fun h => ?_⟩
    rw [← Nat.div_add_mod i n, ← Nat.div_add_mod j n, h.1, h.2]
  have hproduct : (if i / n = j / n then f (i / n) else 0) *
      (if i % n = j % n then g (i % n) else 0) =
        if i = j then f (i / n) * g (i % n) else 0 := by
    simp only [hiff, ite_and, mul_ite, ite_mul, zero_mul, mul_zero]
    split_ifs <;> rfl
  have hentry := (ha.entries _ _ hi₁ hj₁).mul (hb.entries _ _ hi₂ hj₂)
  rw [hproduct] at hentry
  rw [get_kronecker (hrows ▸ hi) (hcols ▸ hj), hb.rows_eq, hb.cols_eq]
  refine hentry ?_
  split
  · exact hexact _ hi₁ _ hi₂
  · exact stands_zero.representable

end IsDiagonal

end DenseMatrix

end PulseNoise
