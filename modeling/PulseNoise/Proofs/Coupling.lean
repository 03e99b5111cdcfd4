import PulseNoise.Proofs.Denotation
import PulseNoise.Proofs.Failure
import Mathlib.Tactic.IntervalCases

/-!
# The coupling of neighbours

Crosstalk refuses a chain that its parameters do not cover and one with a subsystem that has fewer
than two levels. On every other chain it adds one term for each pair of neighbours, diagonal in the
product basis: the two lowest levels of each side have a sign, and all higher levels have zeros. The
matrices of these operators are computed with doubles, by projectors and by products of matrices,
and yet no sign is rounded, for any dimensions.

* `exists_populationDifference` is Z on the two lowest levels, `populationDifference_closed_form`
  lists its entries.
* `Crosstalk.pairTerm_eq` is the term of one pair, `Crosstalk.Couples` says what that is.
* `Crosstalk.Answers` lists the answers of crosstalk and `Crosstalk.noisyPulses_answers` says that
  there are no others.
-/

namespace PulseNoise

open Number

/-! ## Z on two levels -/

/-- The sign of Z at a level. -/
def zSign (n : Nat) : Rat := if n = 0 then -1 else if n = 1 then 1 else 0

theorem zSign_cases (n : Nat) : zSign n = -1 ∨ zSign n = 0 ∨ zSign n = 1 := by
  unfold zSign
  split_ifs <;> simp

theorem representable_zSign (n : Nat) : Representable (zSign n) := by
  rcases zSign_cases n with h | h | h <;> rw [h]
  · exact stands_one.representable.neg
  · exact stands_zero.representable
  · exact stands_one.representable

/-- Twice a count, less one, is finite even where it is rounded. -/
theorem isFinite_twice_sub_one (n : Nat) : (ofCount n * 2.0 - 1.0).isFinite = true := by
  have hfits : Fits 300 (ofCount n).toModel.unpack := fits_ofUInt64 n.toUInt64
  have hcount : (ofCount n).isFinite = true := isFinite_of_fits hfits
  have hdouble : (ofCount n * 2.0).isFinite = true :=
    isFinite_of_fits (fits_mul hfits (k := 0) (by decide +kernel) (by decide) (by decide))
  have hminusOne : Stands (-1.0) (-1) := ⟨by decide +kernel, by decide +kernel⟩
  -- the count is a word, so that neither it nor its double is negative
  have hword : ofCount (n % UInt64.size) = ofCount n :=
    congrArg UInt64.toFloat (UInt64.toNat_inj.1 (Nat.mod_mod n UInt64.size))
  have hcountNonneg : 0 ≤ value (ofCount n) := by
    have hround := roundsTo_ofCount (Nat.mod_lt n (by decide : 0 < UInt64.size))
    rw [hword] at hround
    exact (hround.nearest hcount).ge_of_ge .zero (Nat.cast_nonneg _)
  have hdoubleNonneg : 0 ≤ value (ofCount n * 2.0) := by
    refine ((roundsTo_mul hcount stands_two.isFinite).nearest hdouble).ge_of_ge .zero ?_
    rw [stands_two.value_eq]
    positivity
  refine (roundsTo_sub hdouble stands_one.isFinite).isFinite hminusOne.isFinite hdouble ?_ ?_
  · rw [hminusOne.value_eq, stands_one.value_eq]
    linarith
  · rw [stands_one.value_eq]
    linarith

theorem populationDifference_of_lt {d : Nat} (h : d < 2) :
    populationDifference d = .error (.dimensionMismatch (.noLevel d d)) := by
  interval_cases d <;> rfl

/-- The projector onto the two lowest levels. -/
def lowLevels (d : Nat) : DenseMatrix := .diagonal d fun n => if n ∈ [0, 1] then 1 else 0

/-- The numbers `2 n - 1` as they are computed, for all levels. -/
def oddNumbers (d : Nat) : DenseMatrix :=
  .zipWith (· - ·) (.map (.scale 2.0) (.diagonal d fun n => .ofReal (ofCount n)))
    (.diagonal d fun _ => 1)

theorem populationDifference_eq {d : Nat} (h : 2 ≤ d) :
    populationDifference d = .ok ⟨((lowLevels d).mul (oddNumbers d)).mul (lowLevels d), [d]⟩ := by
  have hlevels : [0, 1].find? (d ≤ ·) = none := by
    rw [List.find?_eq_none]
    simp
    omega
  simp only [populationDifference, Operator.projector, hlevels, Operator.sub, Operator.mul,
    Operator.combine, Operator.num, Operator.identity, Operator.scale, if_pos, bind, Except.bind]
  rfl

theorem isDiagonal_lowLevels (d : Nat) :
    (lowLevels d).IsDiagonal d fun n => if n < 2 then 1 else 0 := by
  refine DenseMatrix.isDiagonal_diagonal fun n _ => ?_
  have hmem : n ∈ [0, 1] ↔ n < 2 := by
    simp only [List.mem_cons, List.not_mem_nil, or_false]
    omega
  simp only [hmem]
  split
  · exact .one
  · exact .zero

theorem isDiagonal_oddNumbers (d : Nat) :
    (oddNumbers d).IsDiagonal d fun n => value (ofCount n * 2.0 - 1.0) := by
  refine ⟨rfl, rfl, fun i j hi hj => ?_⟩
  rw [oddNumbers, DenseMatrix.get_zipWith _ hi hj, DenseMatrix.get_map _ hi hj,
    DenseMatrix.get_diagonal _ hi hj, DenseMatrix.get_diagonal _ hi hj]
  by_cases hij : i = j
  · simp only [if_pos hij]
    exact ⟨stands_value (isFinite_twice_sub_one i),
      (stands_zero.zero_mul stands_two).sub_zero stands_zero⟩
  · simp only [if_neg hij]
    exact ⟨(stands_zero.zero_mul stands_two).sub_zero stands_zero,
      (stands_zero.zero_mul stands_two).sub_zero stands_zero⟩

/-- With two levels or more, Z on the two lowest ones is computed without rounding. -/
theorem exists_populationDifference {d : Nat} (h : 2 ≤ d) :
    ∃ z, populationDifference d = .ok z ∧ z.dims = [d] ∧ z.matrix.IsDiagonal d zSign := by
  refine ⟨_, populationDifference_eq h, rfl, ?_⟩
  have hodd (n : Nat) : Representable (value (ofCount n * 2.0 - 1.0)) :=
    (stands_value (isFinite_twice_sub_one n)).representable
  have hleft : ((lowLevels d).mul (oddNumbers d)).IsDiagonal d zSign := by
    refine ((isDiagonal_lowLevels d).mul (isDiagonal_oddNumbers d) ?_).congr ?_
    · intro n _
      split
      · simpa using hodd n
      · simpa using stands_zero.representable
    · intro n _
      rcases n with _ | _ | n
      · decide +kernel
      · decide +kernel
      · simp [zSign]
  refine (hleft.mul (isDiagonal_lowLevels d) ?_).congr ?_
  · intro n _
    split
    · simpa using representable_zSign n
    · simpa using stands_zero.representable
  · intro n _
    rcases n with _ | _ | n <;> simp [zSign]

/-- **Z on two levels has its closed form.** Fewer than two levels are refused, with the number of
the first level that is missing; nothing else is. With two levels or more, the product of projectors
and counts is an operator on one subsystem of dimension `d`. Its entries are, as numbers, minus one
at the lowest level, one at the next, and zero at all higher levels and off the diagonal. -/
theorem populationDifference_closed_form (d : Nat) :
    ((∃ m, populationDifference d = .error (.dimensionMismatch m)) ↔ d < 2) ∧
    (d = 0 → populationDifference d = .error (.dimensionMismatch (.noLevel 0 d))) ∧
    (d = 1 → populationDifference d = .error (.dimensionMismatch (.noLevel 1 d))) ∧
    (2 ≤ d → ∃ z, populationDifference d = .ok z ∧ z.dims = [d] ∧
      z.matrix.rows = d ∧ z.matrix.cols = d ∧
      (z.matrix.get 0 0).Denotes (-1) ∧ (z.matrix.get 1 1).Denotes 1 ∧
      (∀ n, 2 ≤ n → n < d → (z.matrix.get n n).Denotes 0) ∧
      ∀ i j, i < d → j < d → i ≠ j → (z.matrix.get i j).Denotes 0) := by
  rcases lt_or_ge d 2 with hlt | hge
  · have herror := populationDifference_of_lt hlt
    refine ⟨iff_of_true ⟨_, herror⟩ hlt, ?_, ?_, by omega⟩
    · rintro rfl
      exact herror
    · rintro rfl
      exact herror
  · obtain ⟨z, hz, hdims, hdiagonal⟩ := exists_populationDifference hge
    have hok : ¬ ∃ m, populationDifference d = .error (.dimensionMismatch m) := by
      rw [hz]
      nofun
    have hentry (n : Nat) (hn : n < d) : (z.matrix.get n n).Denotes (zSign n) := by
      have h := hdiagonal.entries n n hn hn
      rwa [if_pos rfl] at h
    refine ⟨iff_of_false hok (by omega), by omega, by omega, fun _ => ?_⟩
    refine ⟨z, hz, hdims, hdiagonal.rows_eq, hdiagonal.cols_eq, hentry 0 (by omega),
      hentry 1 (by omega), ?_, ?_⟩
    · intro n hlow hn
      have h := hentry n hn
      rwa [zSign, if_neg (by omega), if_neg (by omega)] at h
    · intro i j hi hj hij
      have h := hdiagonal.entries i j hi hj
      rwa [if_neg hij] at h

/-- On a qutrit the highest level has a zero. -/
theorem populationDifference_closed_form_sample :
    2 ≤ 3 ∧ ∃ z, populationDifference 3 = .ok z ∧ (z.matrix.get 2 2).Denotes 0 := by
  obtain ⟨z, hz, -, -, -, -, -, hzero, -⟩ :=
    (populationDifference_closed_form 3).2.2.2 (by omega)
  exact ⟨by omega, z, hz, hzero 2 (by omega) (by omega)⟩

/-! ## Terms of pairs -/

namespace CrosstalkParameters

variable {parameters : CrosstalkParameters} {qubits : Nat}

/-- Parameters for every pair and for every qubit of a chain. -/
structure Covers (parameters : CrosstalkParameters) (qubits : Nat) : Prop where
  coupling : qubits - 1 ≤ parameters.coupling.length
  frequency : qubits ≤ parameters.frequency.length
  anharmonicity : qubits ≤ parameters.anharmonicity.length

theorem check_eq_ok_iff : parameters.check qubits = .ok () ↔ parameters.Covers qubits := by
  constructor
  · intro h
    obtain ⟨hcoupling, hfrequency, hanharmonicity⟩ := le_length_of_check h
    exact ⟨hcoupling, hfrequency, hanharmonicity⟩
  · intro h
    unfold check checkLength
    rw [if_neg h.coupling.not_gt, if_neg h.frequency.not_gt, if_neg h.anharmonicity.not_gt]
    rfl

/-- The strength of a pair of the chain. -/
theorem Covers.coefficient_eq (h : parameters.Covers qubits) {i : Nat} (hi : i < qubits - 1) :
    parameters.coefficient i = .ok (strength (parameters.coupling.getD i 0.0)
      (parameters.frequency.getD i 0.0 - parameters.frequency.getD (i + 1) 0.0)
      (parameters.anharmonicity.getD i 0.0) (parameters.anharmonicity.getD (i + 1) 0.0)) := by
  obtain ⟨hcoupling, hfrequency, hanharmonicity⟩ := h
  unfold coefficient
  rw [entry_eq_ok_getD (by omega : i < parameters.frequency.length) 0.0,
    entry_eq_ok_getD (by omega : i + 1 < parameters.frequency.length) 0.0,
    entry_eq_ok_getD (by omega : i < parameters.coupling.length) 0.0,
    entry_eq_ok_getD (by omega : i + 1 < parameters.anharmonicity.length) 0.0,
    entry_eq_ok_getD (by omega : i < parameters.anharmonicity.length) 0.0]
  rfl

end CrosstalkParameters

/-- The sign of ZZ at a state of two subsystems. -/
def zzSign (a b : Nat) : Rat := if 2 ≤ a ∨ 2 ≤ b then 0 else if a = b then 1 else -1

theorem zSign_mul_zSign (a b : Nat) : zSign a * zSign b = zzSign a b := by
  rcases a with _ | _ | a <;> rcases b with _ | _ | b <;> simp [zSign, zzSign]

theorem representable_zzSign_mul (a b : Nat) {q : Rat} (hq : Representable q) :
    Representable (zzSign a b * q) := by
  unfold zzSign
  split_ifs
  · simpa using stands_zero.representable
  · simpa using hq
  · simpa using hq.neg

namespace Crosstalk

variable {noise : Crosstalk} {dims : List Nat} {i left right : Nat}

/-- The term of qubits `i` and `i + 1`. It is constant and without a grid, on these two qubits, and
when the strength `c` of the pair is finite, its operator is diagonal with half of that strength,
with its sign, at the four lowest states and zeros at all others. -/
structure Couples (noise : Crosstalk) (i left right : Nat) (t : Term) : Prop where
  targets_eq : t.targets = [i, i + 1]
  grid_eq : t.grid = none
  coefficient_eq : t.coefficient = .constant
  dims_eq : t.operator.dims = [left, right]
  rows_eq : t.operator.matrix.rows = left * right
  cols_eq : t.operator.matrix.cols = left * right
  entries : ∃ c, noise.parameters.coefficient i = .ok c ∧ (c.isFinite = true →
    Nearest (value c / 2) (value (c / 2.0)) ∧
    ∀ a b a' b', a < left → b < right → a' < left → b' < right →
      (t.operator.matrix.get (a * right + b) (a' * right + b')).Denotes
        (if a = a' ∧ b = b' then zzSign a b * value (c / 2.0) else 0))

/-- The operator of a pair with ZZ of the given strength. -/
def pairOperator (zLeft zRight : Operator) (c : Float) : Operator :=
  (zLeft.tensor zRight).scale (c / 2.0)

theorem rows_pairOperator (zLeft zRight : Operator) (c : Float) :
    (pairOperator zLeft zRight c).matrix.rows = zLeft.matrix.rows * zRight.matrix.rows := rfl

theorem cols_pairOperator (zLeft zRight : Operator) (c : Float) :
    (pairOperator zLeft zRight c).matrix.cols = zLeft.matrix.cols * zRight.matrix.cols := rfl

theorem matrix_pairOperator (zLeft zRight : Operator) (c : Float) :
    (pairOperator zLeft zRight c).matrix =
      (zLeft.tensor zRight).matrix.map (.scale (c / 2.0)) := rfl

theorem dims_pairOperator {zLeft zRight : Operator} (hleft : zLeft.dims = [left])
    (hright : zRight.dims = [right]) (c : Float) :
    (pairOperator zLeft zRight c).dims = [left, right] := by
  change zLeft.dims ++ zRight.dims = _
  rw [hleft, hright]
  rfl

theorem pairTerm_of_left (hleft : dims[i]? = some left) (hright : dims[i + 1]? = some right)
    (h : left < 2) : noise.pairTerm dims i = .error (.dimensionMismatch (.noLevel left left)) := by
  unfold pairTerm
  rw [entry_eq_ok_iff.2 hleft, entry_eq_ok_iff.2 hright]
  simp only [bind, Except.bind, populationDifference_of_lt h]

theorem pairTerm_of_right (hleft : dims[i]? = some left) (hright : dims[i + 1]? = some right)
    (h : 2 ≤ left) (h' : right < 2) :
    noise.pairTerm dims i = .error (.dimensionMismatch (.noLevel right right)) := by
  obtain ⟨z, hz, -⟩ := exists_populationDifference h
  unfold pairTerm
  rw [entry_eq_ok_iff.2 hleft, entry_eq_ok_iff.2 hright]
  simp only [bind, Except.bind, hz, populationDifference_of_lt h']

/-- The term of a pair whose subsystems have two levels or more. -/
theorem pairTerm_eq (hcovers : noise.parameters.Covers dims.length)
    (hleft : dims[i]? = some left) (hright : dims[i + 1]? = some right)
    (h : 2 ≤ left) (h' : 2 ≤ right) :
    ∃ zLeft zRight c, zLeft.matrix.IsDiagonal left zSign ∧ zRight.matrix.IsDiagonal right zSign ∧
      zLeft.dims = [left] ∧ zRight.dims = [right] ∧ noise.parameters.coefficient i = .ok c ∧
      noise.pairTerm dims i =
        .ok ⟨pairOperator zLeft zRight c, [i, i + 1], none, .constant⟩ := by
  obtain ⟨zLeft, hzLeft, hdimsLeft, hdiagonalLeft⟩ := exists_populationDifference h
  obtain ⟨zRight, hzRight, hdimsRight, hdiagonalRight⟩ := exists_populationDifference h'
  have hi : i + 1 < dims.length := (List.getElem?_eq_some_iff.1 hright).1
  obtain ⟨c, hc⟩ : ∃ c, noise.parameters.coefficient i = .ok c :=
    ⟨_, hcovers.coefficient_eq (by omega)⟩
  have hdims := dims_pairOperator hdimsLeft hdimsRight c
  have hplace : checkPlacement (pairOperator zLeft zRight c) [i, i + 1] dims = .ok () := by
    refine checkPlacement_eq_ok_iff.2 ⟨?_, ?_⟩
    · simp
      omega
    · rw [hdims]
      simp [List.getD_eq_getElem?_getD, hleft, hright]
  have hmake : Term.constant? (pairOperator zLeft zRight c) [i, i + 1] =
      .ok ⟨pairOperator zLeft zRight c, [i, i + 1], none, .constant⟩ := by
    refine (Term.make?_eq_ok_iff _ _ _ _ _).2 ⟨rfl, ?_, nofun, nofun⟩
    rw [Operator.subsystems, hdims]
    rfl
  refine ⟨zLeft, zRight, c, hdiagonalLeft, hdiagonalRight, hdimsLeft, hdimsRight, hc, ?_⟩
  unfold pairTerm
  rw [entry_eq_ok_iff.2 hleft, entry_eq_ok_iff.2 hright]
  simp only [bind, Except.bind, hzLeft, hzRight, hc]
  rw [pairOperator] at hplace hmake
  rw [hplace, hmake]
  rfl

/-- The operator of a pair is ZZ before it is scaled. -/
theorem isDiagonal_tensor {zLeft zRight : Operator} (hleft : zLeft.matrix.IsDiagonal left zSign)
    (hright : zRight.matrix.IsDiagonal right zSign) :
    (zLeft.tensor zRight).matrix.IsDiagonal (left * right)
      fun k => zzSign (k / right) (k % right) := by
  refine (hleft.kronecker hright ?_).congr fun k _ => zSign_mul_zSign _ _
  intro a _ b _
  rw [zSign_mul_zSign]
  simpa using representable_zzSign_mul a b stands_one.representable

/-- The half of a finite double is finite, and the nearest double to the half of its number. -/
theorem nearest_half {c : Float} (hc : c.isFinite = true) :
    (c / 2.0).isFinite = true ∧ Nearest (value c / 2) (value (c / 2.0)) := by
  have htwo : value 2.0 ≠ 0 := by
    rw [stands_two.value_eq]
    exact two_ne_zero
  have hround := roundsTo_div hc stands_two.isFinite htwo
  rw [stands_two.value_eq] at hround
  have hfinite : (c / 2.0).isFinite = true := by
    rcases le_total 0 (value c) with hnonneg | hnonpos
    · refine hround.isFinite stands_zero.isFinite hc ?_ (half_le_self hnonneg)
      rw [stands_zero.value_eq]
      linarith
    · refine hround.isFinite hc stands_zero.isFinite ?_ ?_
      · linarith
      · rw [stands_zero.value_eq]
        linarith
  exact ⟨hfinite, hround.nearest hfinite⟩

theorem couples_of_pairOperator {zLeft zRight : Operator} {c : Float}
    (hleft : zLeft.matrix.IsDiagonal left zSign) (hright : zRight.matrix.IsDiagonal right zSign)
    (hdimsLeft : zLeft.dims = [left]) (hdimsRight : zRight.dims = [right])
    (hc : noise.parameters.coefficient i = .ok c) :
    noise.Couples i left right
      ⟨pairOperator zLeft zRight c, [i, i + 1], none, .constant⟩ := by
  have hzz := isDiagonal_tensor hleft hright
  refine ⟨rfl, rfl, rfl, dims_pairOperator hdimsLeft hdimsRight c, ?_, ?_, c, hc,
    fun hfinite => ?_⟩
  · rw [rows_pairOperator, hleft.rows_eq, hright.rows_eq]
  · rw [cols_pairOperator, hleft.cols_eq, hright.cols_eq]
  · obtain ⟨hhalf, hnearest⟩ := nearest_half hfinite
    refine ⟨hnearest, fun a b a' b' ha hb ha' hb' => ?_⟩
    rw [matrix_pairOperator]
    have hscaled := hzz.scale (stands_value hhalf) fun k _ =>
      representable_zzSign_mul _ _ (stands_value hhalf).representable
    have hentry := hscaled.entries _ _ (DenseMatrix.index_lt ha hb) (DenseMatrix.index_lt ha' hb')
    simp only [DenseMatrix.index_eq_iff hb hb', DenseMatrix.index_div hb, DenseMatrix.index_mod hb]
      at hentry
    exact hentry

/-! ## Answers -/

/-- The answers of crosstalk. A sequence of parameters may be longer than it has to be. -/
inductive Answers (noise : Crosstalk) (dims : List Nat) (pulses : List Pulse) (acc : Pulse) :
    Except Error Outcome → Prop
  /-- A chain of one has no pair. -/
  | short (h : dims.length < 2) : Answers noise dims pulses acc (.ok .unchanged)
  | coupling (hdims : 2 ≤ dims.length)
      (h : noise.parameters.coupling.length < dims.length - 1) :
      Answers noise dims pulses acc
        (.error (.parameterLength "J" noise.parameters.coupling.length (dims.length - 1)))
  | frequency (hdims : 2 ≤ dims.length)
      (hcoupling : dims.length - 1 ≤ noise.parameters.coupling.length)
      (h : noise.parameters.frequency.length < dims.length) :
      Answers noise dims pulses acc (.error (.parameterLength "wq_dressed_cavity"
        noise.parameters.frequency.length dims.length))
  | anharmonicity (hdims : 2 ≤ dims.length)
      (hcoupling : dims.length - 1 ≤ noise.parameters.coupling.length)
      (hfrequency : dims.length ≤ noise.parameters.frequency.length)
      (h : noise.parameters.anharmonicity.length < dims.length) :
      Answers noise dims pulses acc
        (.error (.parameterLength "alpha" noise.parameters.anharmonicity.length dims.length))
  /-- The first subsystem with fewer than two levels is reported. -/
  | noLevel {d : Nat} (hdims : 2 ≤ dims.length) (hcovers : noise.parameters.Covers dims.length)
      (h : dims.find? (· < 2) = some d) :
      Answers noise dims pulses acc (.error (.dimensionMismatch (.noLevel d d)))
  /-- One term for each pair, behind the coherent terms that there are. -/
  | coupled {ts : List Term} (hdims : 2 ≤ dims.length)
      (hcovers : noise.parameters.Covers dims.length) (hlevels : ∀ d ∈ dims, 2 ≤ d)
      (hlength : ts.length = dims.length - 1)
      (hterms : ∀ i < dims.length - 1, ∃ left right t, dims[i]? = some left ∧
        dims[i + 1]? = some right ∧ ts[i]? = some t ∧ noise.Couples i left right t) :
      Answers noise dims pulses acc
        (.ok (.pulsesAndAccumulator pulses (acc.appendCoherent ts)))

/-- The two subsystems of a pair of the chain. -/
theorem exists_neighbours (hlevels : ∀ d ∈ dims, 2 ≤ d) (hi : i < dims.length - 1) :
    ∃ left right, dims[i]? = some left ∧ dims[i + 1]? = some right ∧ 2 ≤ left ∧ 2 ≤ right :=
  have hleft : i < dims.length := by omega
  have hright : i + 1 < dims.length := by omega
  ⟨dims[i], dims[i + 1], List.getElem?_eq_getElem hleft, List.getElem?_eq_getElem hright,
    hlevels _ (List.getElem_mem hleft), hlevels _ (List.getElem_mem hright)⟩

/-- The loop over the pairs stops at the first subsystem with fewer than two levels. -/
theorem mapM_pairTerm_of_short (hdims : 2 ≤ dims.length)
    (hcovers : noise.parameters.Covers dims.length) {d : Nat} (h : dims.find? (· < 2) = some d) :
    (List.range (dims.length - 1)).mapM (noise.pairTerm dims) =
      .error (.dimensionMismatch (.noLevel d d)) := by
  obtain ⟨hshort, k, hk, rfl, hbefore⟩ := List.find?_eq_some_iff_getElem.1 h
  simp only [decide_eq_true_eq, Bool.not_eq_true', decide_eq_false_iff_not, not_lt]
    at hshort hbefore
  -- the subsystem is the left one of the first pair, or else the right one of the pair before it
  refine mapM_eq_error_of_find? (p := (k - 1 ≤ ·)) (x := k - 1) ?_ ?_ ?_
  · refine List.find?_range_eq_some.2 ⟨by simp, List.mem_range.2 (by omega), fun j hj => ?_⟩
    simp only [Bool.not_eq_true', decide_eq_false_iff_not]
    omega
  · intro i hi hlt
    have hi : i < dims.length - 1 := List.mem_range.1 hi
    have hlt : i + 1 < k := by simpa using hlt
    obtain ⟨_, _, _, -, -, -, -, -, hterm⟩ := pairTerm_eq hcovers (List.getElem?_eq_getElem _)
      (List.getElem?_eq_getElem _) (hbefore i (by omega)) (hbefore (i + 1) hlt)
    exact ⟨_, hterm⟩
  · rcases k with _ | k
    · exact pairTerm_of_left (List.getElem?_eq_getElem hk)
        (List.getElem?_eq_getElem (by omega)) hshort
    · exact pairTerm_of_right (List.getElem?_eq_getElem (by omega))
        (List.getElem?_eq_getElem hk) (hbefore k (by omega)) hshort

/-- With two levels everywhere, every pair has its term. -/
theorem exists_mapM_pairTerm (hcovers : noise.parameters.Covers dims.length)
    (hlevels : ∀ d ∈ dims, 2 ≤ d) :
    ∃ ts, (List.range (dims.length - 1)).mapM (noise.pairTerm dims) = .ok ts := by
  refine exists_mapM_eq_ok_iff.2 fun i hi => ?_
  obtain ⟨left, right, hleft, hright, hlow, hlow'⟩ :=
    exists_neighbours hlevels (List.mem_range.1 hi)
  obtain ⟨_, _, _, -, -, -, -, -, hterm⟩ := pairTerm_eq hcovers hleft hright hlow hlow'
  exact ⟨_, hterm⟩

/-- The term of every pair couples it. -/
theorem couples_of_pairTerm (hcovers : noise.parameters.Covers dims.length)
    (hlevels : ∀ d ∈ dims, 2 ≤ d) (hi : i < dims.length - 1) {t : Term}
    (h : noise.pairTerm dims i = .ok t) :
    ∃ left right, dims[i]? = some left ∧ dims[i + 1]? = some right ∧
      noise.Couples i left right t := by
  obtain ⟨left, right, hleft, hright, hlow, hlow'⟩ := exists_neighbours hlevels hi
  obtain ⟨zLeft, zRight, c, hzLeft, hzRight, hdimsLeft, hdimsRight, hc, hterm⟩ :=
    pairTerm_eq hcovers hleft hright hlow hlow'
  obtain rfl := Except.ok.inj (h.symm.trans hterm)
  exact ⟨left, right, hleft, hright,
    couples_of_pairOperator hzLeft hzRight hdimsLeft hdimsRight hc⟩

/-- **Crosstalk adds the coupling of neighbours, or reports the first fault.** The answers that are
listed are the only ones, for every chain, all parameters, pulses and accumulators. -/
theorem noisyPulses_answers {σ : Type} (noise : Crosstalk) (dims : List Nat) (pulses : List Pulse)
    (acc : Pulse) (s : σ) :
    noise.Answers dims pulses acc (noise.toSource.noisyPulses dims pulses acc s).result := by
  by_cases hshort : dims.length < 2
  · rw [(noise.computes_noisyPulses_of_short hshort pulses acc).result_eq s]
    exact .short hshort
  have hdims : 2 ≤ dims.length := not_lt.1 hshort
  rw [(noise.computes_noisyPulses hshort pulses acc).result_eq s, terms, if_neg hshort]
  by_cases hcoupling : noise.parameters.coupling.length < dims.length - 1
  · rw [CrosstalkParameters.check, CrosstalkParameters.checkLength, if_pos hcoupling]
    exact .coupling hdims hcoupling
  by_cases hfrequency : noise.parameters.frequency.length < dims.length
  · rw [CrosstalkParameters.check, CrosstalkParameters.checkLength, if_neg hcoupling,
      CrosstalkParameters.checkLength, if_pos hfrequency]
    exact .frequency hdims (not_lt.1 hcoupling) hfrequency
  by_cases hanharmonicity : noise.parameters.anharmonicity.length < dims.length
  · rw [CrosstalkParameters.check, CrosstalkParameters.checkLength, if_neg hcoupling,
      CrosstalkParameters.checkLength, if_neg hfrequency, CrosstalkParameters.checkLength,
      if_pos hanharmonicity]
    exact .anharmonicity hdims (not_lt.1 hcoupling) (not_lt.1 hfrequency) hanharmonicity
  have hcovers : noise.parameters.Covers dims.length :=
    ⟨not_lt.1 hcoupling, not_lt.1 hfrequency, not_lt.1 hanharmonicity⟩
  rw [CrosstalkParameters.check_eq_ok_iff.2 hcovers]
  cases hfind : dims.find? (· < 2) with
  | some d =>
    change noise.Answers dims pulses acc (_ <$> (List.range (dims.length - 1)).mapM _)
    rw [mapM_pairTerm_of_short hdims hcovers hfind]
    exact .noLevel hdims hcovers hfind
  | none =>
    have hlevels : ∀ d ∈ dims, 2 ≤ d := by
      intro d hd
      have := List.find?_eq_none.1 hfind d hd
      simp only [decide_eq_true_eq] at this
      omega
    obtain ⟨ts, hts⟩ := exists_mapM_pairTerm hcovers hlevels
    obtain ⟨hlength, hterms⟩ := getElem?_of_mapM_range hts
    change noise.Answers dims pulses acc (_ <$> (List.range (dims.length - 1)).mapM _)
    rw [hts]
    refine .coupled hdims hcovers hlevels hlength fun i hi => ?_
    obtain ⟨t, ht, hterm⟩ := hterms i hi
    obtain ⟨left, right, hleft, hright, hcouples⟩ :=
      couples_of_pairTerm hcovers hlevels hi hterm
    exact ⟨left, right, t, hleft, hright, ht, hcouples⟩

end Crosstalk

end PulseNoise
