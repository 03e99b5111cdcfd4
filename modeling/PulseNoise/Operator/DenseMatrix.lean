import PulseNoise.Operator.Scalar

/-!
# Dense matrices

A matrix of any shape, stored row by row. A matrix is read with `get` and made with `ofFn`, and
`get_ofFn` says that reading gives back what was put in, so that the entries of every operation
below are known from its definition. `ext_get` is the converse: the shape and the entries
determine a matrix.
-/

namespace PulseNoise

/-- A matrix with its entries row by row. -/
structure DenseMatrix where
  rows : Nat
  cols : Nat
  entries : Vector Scalar (rows * cols)
  deriving DecidableEq

namespace DenseMatrix

/-! ## Indices -/

section Index

variable {rows cols i j : Nat}

theorem index_lt (hi : i < rows) (hj : j < cols) : i * cols + j < rows * cols := by
  have h : (i + 1) * cols ≤ rows * cols := Nat.mul_le_mul_right cols hi
  rw [Nat.succ_mul] at h
  omega

theorem index_div (hj : j < cols) : (i * cols + j) / cols = i := by
  rw [Nat.mul_comm, Nat.mul_add_div (by omega), Nat.div_eq_of_lt hj, Nat.add_zero]

theorem index_mod (hj : j < cols) : (i * cols + j) % cols = j := Nat.mul_add_mod_of_lt hj

theorem index_eq_iff {i' j' : Nat} (hj : j < cols) (hj' : j' < cols) :
    i * cols + j = i' * cols + j' ↔ i = i' ∧ j = j' := by
  constructor
  · intro h
    have hdiv := congrArg (· / cols) h
    have hmod := congrArg (· % cols) h
    simp only [index_div hj, index_div hj', index_mod hj, index_mod hj'] at hdiv hmod
    exact ⟨hdiv, hmod⟩
  · rintro ⟨rfl, rfl⟩
    rfl

/-- Every index of a shape is one of a row and a column. -/
theorem index_split {k : Nat} (h : k < rows * cols) : k / cols < rows ∧ k % cols < cols := by
  have hcols : 0 < cols := Nat.pos_of_ne_zero fun hzero => by simp [hzero] at h
  exact ⟨(Nat.div_lt_iff_lt_mul hcols).2 h, Nat.mod_lt k hcols⟩

end Index

/-! ## Entries -/

/-- The entry in a row and a column; there is zero outside the matrix. -/
def get (a : DenseMatrix) (i j : Nat) : Scalar :=
  if h : i < a.rows ∧ j < a.cols then
    have := index_lt h.1 h.2
    a.entries[i * a.cols + j]
  else 0

def ofFn (rows cols : Nat) (f : Nat → Nat → Scalar) : DenseMatrix :=
  ⟨rows, cols, Vector.ofFn fun k => f (k.val / cols) (k.val % cols)⟩

@[simp]
theorem rows_ofFn (rows cols : Nat) (f : Nat → Nat → Scalar) : (ofFn rows cols f).rows = rows :=
  rfl

@[simp]
theorem cols_ofFn (rows cols : Nat) (f : Nat → Nat → Scalar) : (ofFn rows cols f).cols = cols :=
  rfl

/-- Inside its shape a matrix holds what it was made of. -/
theorem get_ofFn {rows cols i j : Nat} (f : Nat → Nat → Scalar) (hi : i < rows) (hj : j < cols) :
    (ofFn rows cols f).get i j = f i j := by
  simp [get, ofFn, hi, hj, index_div, Nat.mod_eq_of_lt]

theorem ext_get {a b : DenseMatrix} (hrows : a.rows = b.rows) (hcols : a.cols = b.cols)
    (h : ∀ i j, i < a.rows → j < a.cols → a.get i j = b.get i j) : a = b := by
  obtain ⟨rows, cols, xs⟩ := a
  obtain ⟨rows', cols', ys⟩ := b
  simp only at hrows hcols h
  subst hrows hcols
  congr 1
  ext k hk
  obtain ⟨hi, hj⟩ := index_split hk
  have hk' : k / cols * cols + k % cols = k := Nat.div_add_mod' k cols
  have := h (k / cols) (k % cols) hi hj
  simpa [get, hi, hj, hk'] using this

/-- Equality of shapes and, as doubles, of entries. -/
instance : BEq DenseMatrix :=
  ⟨fun a b => a.rows == b.rows && a.cols == b.cols && a.entries.toList == b.entries.toList⟩

/-! ## Operations -/

/-- A matrix from its entries row by row; missing entries are zero. -/
def ofEntries (rows cols : Nat) (entries : Array Scalar) : DenseMatrix :=
  ofFn rows cols fun i j => entries.getD (i * cols + j) 0

def diagonal (side : Nat) (f : Nat → Scalar) : DenseMatrix :=
  ofFn side side fun i j => if i = j then f i else 0

def map (f : Scalar → Scalar) (a : DenseMatrix) : DenseMatrix :=
  ofFn a.rows a.cols fun i j => f (a.get i j)

/-- An operation on the entries of two matrices, in the shape of the first. -/
def zipWith (f : Scalar → Scalar → Scalar) (a b : DenseMatrix) : DenseMatrix :=
  ofFn a.rows a.cols fun i j => f (a.get i j) (b.get i j)

def adjoint (a : DenseMatrix) : DenseMatrix :=
  ofFn a.cols a.rows fun i j => (a.get j i).conj

def transpose (a : DenseMatrix) : DenseMatrix := ofFn a.cols a.rows fun i j => a.get j i

/-- The number of terms that a product sums at a time. -/
def blockLength : Nat := 256

/-- The products of two rows' entries from one place on, so many of them, added in their order to
a sum with the given parts. -/
def addProducts (a b : DenseMatrix) (i j : Nat) : Nat → Nat → Float → Float → Scalar
  | 0, _, re, im => ⟨re, im⟩
  | count + 1, k, re, im =>
    let x := a.get i k
    let y := b.get j k
    addProducts a b i j count (k + 1) (re + x.re * y.re - x.im * y.im)
      (im + x.re * y.im + x.im * y.re)

/-- The products of two rows' entries, summed block by block. At each block, the sum so far and the
block are multiplied by one. That keeps finite values; an infinite part times the zero part of one
is NaN, so that it spoils the other part. -/
def dot (a b : DenseMatrix) (i j : Nat) : Scalar :=
  (List.range ((a.cols + blockLength - 1) / blockLength)).foldl
    (fun sum block =>
      let first := block * blockLength
      1 * sum + 1 * a.addProducts b i j (min blockLength (a.cols - first)) first 0.0 0.0) 0

/-- The product; the columns of the second matrix are the rows of its transpose. -/
def mul (a b : DenseMatrix) : DenseMatrix :=
  let columns := b.transpose
  ofFn a.rows b.cols (a.dot columns)

/-- The Kronecker product: each entry of the first times the whole second matrix. -/
def kronecker (a b : DenseMatrix) : DenseMatrix :=
  ofFn (a.rows * b.rows) (a.cols * b.cols) fun i j =>
    a.get (i / b.rows) (j / b.cols) * b.get (i % b.rows) (j % b.cols)

def all (p : Scalar → Bool) (a : DenseMatrix) : Bool := a.entries.toList.all p

end DenseMatrix

end PulseNoise
