import PulseNoise.Proofs.Arithmetic
import PulseNoise.Proofs.Yield
import PulseNoise.Sampling.Grid

/-!
# Spacing of sample grids

The points of a sample grid are counted by a rounded quotient and computed by a rounded product and
a rounded sum. Each of these is off by a relative error of `2 ^ (-53)` at most, and there are few
points, so that the errors stay far below one step: only the last point can pass the end of the
interval.

* `SampleGrid.Measures grid stop last` collects what an accepted interval says of its numbers.
* `Measures.point_le_stop` keeps all points but the last within the interval.
* `points_spaced` says what holds of every grid, and `points_pass_stop` that the last point does
  pass the end.
-/

namespace PulseNoise.Sampling.SampleGrid

open Number

variable {start stop dt : Float} {grid : SampleGrid}

/-! ## Accepted intervals -/

theorem make?_eq_ok_iff :
    make? start stop dt = .ok grid ↔
      isTimeStep dt = true ∧ ((stop - start) / dt).isFinite = true ∧
        ¬ (stop - start) / dt < 0.0 ∧ ¬ ofCount maxGridPoints ≤ (stop - start) / dt ∧
        grid = ⟨start, dt, ((stop - start) / dt).toUInt64.toNat + 1⟩ := by
  unfold make?
  cases hstep : isTimeStep dt with
  | false => simp
  | true =>
    cases hfinite : ((stop - start) / dt).isFinite with
    | false => simp [hfinite]
    | true =>
      by_cases hneg : (stop - start) / dt < 0.0
      · simp [hfinite, hneg]
      · by_cases hlarge : ofCount maxGridPoints ≤ (stop - start) / dt
        · simp [hfinite, hlarge]
        · simp [hfinite, hneg, hlarge, eq_comm]

/-- The numbers of an accepted interval are finite, and the index of the last point is the whole
part of the rounded quotient. -/
structure Measures (grid : SampleGrid) (stop : Float) (last : Nat) : Prop where
  count_eq : grid.count = last + 1
  isFinite_start : grid.start.isFinite = true
  isFinite_stop : stop.isFinite = true
  isFinite_step : grid.step.isFinite = true
  isFinite_span : (stop - grid.start).isFinite = true
  isFinite_steps : ((stop - grid.start) / grid.step).isFinite = true
  step_pos : 0 < value grid.step
  steps_nonneg : 0 ≤ value ((stop - grid.start) / grid.step)
  steps_lt : value ((stop - grid.start) / grid.step) < maxGridPoints
  last_eq : last = ⌊value ((stop - grid.start) / grid.step)⌋₊

theorem isFinite_zero : (0.0 : Float).isFinite = true := by decide +kernel

theorem value_zero : value 0.0 = 0 := by
  have hunpack : (0.0 : Float).toModel.unpack = .zero .positive := by rfl
  rw [value, hunpack]
  rfl

theorem measures_of_make? (h : make? start stop dt = .ok grid) :
    grid.start = start ∧ grid.step = dt ∧ ∃ last, Measures grid stop last := by
  obtain ⟨hstep, hsteps, hneg, hlarge, rfl⟩ := make?_eq_ok_iff.1 h
  obtain ⟨hdt, hpos⟩ := Bool.and_eq_true_iff.1 hstep
  have hspan := isFinite_of_div hsteps hdt
  obtain ⟨hstop, hstart⟩ := isFinite_of_sub hspan
  have hdtPos : 0 < value dt := by
    rw [← value_zero]
    exact (lt_iff_value_lt isFinite_zero hdt).1 (of_decide_eq_true hpos)
  have hnonneg : 0 ≤ value ((stop - start) / dt) := by
    rw [← value_zero, ← not_lt]
    exact fun hlt => hneg ((lt_iff_value_lt hsteps isFinite_zero).2 hlt)
  obtain ⟨hmax, hmaxValue⟩ := value_ofCount (n := maxGridPoints) (by decide)
  have hlt : value ((stop - start) / dt) < maxGridPoints := by
    rw [← hmaxValue, ← not_le]
    exact fun hle => hlarge ((le_iff_value_le hmax hsteps).2 hle)
  have hword : value ((stop - start) / dt) < 2 ^ 64 :=
    hlt.trans (by norm_num [maxGridPoints])
  exact ⟨rfl, rfl, _, congrArg (· + 1) (toNat_toUInt64 hsteps hnonneg hword), hstart, hstop, hdt,
    hspan, hsteps, hdtPos, hnonneg, hlt, rfl⟩

namespace Measures

variable {last : Nat}

/-! ## The interval in steps -/

theorem last_le (h : Measures grid stop last) :
    (last : Rat) ≤ value ((stop - grid.start) / grid.step) := by
  rw [h.last_eq]
  exact Nat.floor_le h.steps_nonneg

theorem last_lt (h : Measures grid stop last) : last < maxGridPoints := by
  have hlt := h.last_le.trans_lt h.steps_lt
  exact_mod_cast hlt

theorem roundsTo_steps (h : Measures grid stop last) :
    RoundsTo (value (stop - grid.start) / value grid.step) ((stop - grid.start) / grid.step) :=
  roundsTo_div h.isFinite_span h.isFinite_step h.step_pos.ne'

theorem nearest_span (h : Measures grid stop last) :
    Nearest (value stop - value grid.start) (value (stop - grid.start)) :=
  (roundsTo_sub h.isFinite_stop h.isFinite_start).nearest h.isFinite_span

theorem isDouble_span (h : Measures grid stop last) : IsDouble (value (stop - grid.start)) :=
  isDouble_value h.isFinite_span

/-- A quotient that rounds to one or more is not so small that rounding loses its precision. -/
theorem steps_bounds (h : Measures grid stop last) (hlast : 1 ≤ last) :
    0 < value (stop - grid.start) ∧
      last * value grid.step ≤ (1 + roundoff) * value (stop - grid.start) ∧
      (1 - roundoff) * value (stop - grid.start) ≤ 10000000 * value grid.step := by
  have hnearest := h.roundsTo_steps.nearest h.isFinite_steps
  have hone : 1 ≤ value ((stop - grid.start) / grid.step) := by
    have : (1 : Rat) ≤ last := by exact_mod_cast hlast
    exact this.trans h.last_le
  have hlarge : 2 ^ (-1022 : Int) ≤ value (stop - grid.start) / value grid.step := by
    by_contra hsmall
    have hdouble : IsDouble (2 ^ (-1022 : Int)) := ⟨1, -1022, by norm_num, by norm_num, by simp⟩
    have hle := hnearest.le_of_le hdouble (not_le.1 hsmall).le
    have hlt : (2 : Rat) ^ (-1022 : Int) < 2 ^ (0 : Int) :=
      zpow_lt_zpow_right₀ one_lt_two (by norm_num)
    rw [zpow_zero] at hlt
    linarith
  have hpos : 0 < value (stop - grid.start) / value grid.step :=
    lt_of_lt_of_le (by positivity) hlarge
  have hwell : RoundsWell (value (stop - grid.start) / value grid.step) := by
    left
    rwa [abs_of_pos hpos]
  obtain ⟨hlow, hhigh⟩ := hnearest.bounds_of_nonneg hwell hpos.le
  have hsteps : value (stop - grid.start) =
      value (stop - grid.start) / value grid.step * value grid.step :=
    (div_mul_cancel₀ _ h.step_pos.ne').symm
  have hstep := h.step_pos
  refine ⟨(div_pos_iff_of_pos_right h.step_pos).1 hpos, ?_, ?_⟩
  · rw [hsteps, ← mul_assoc]
    exact mul_le_mul_of_nonneg_right (h.last_le.trans hhigh) hstep.le
  · have hmax : (maxGridPoints : Rat) = 10000000 := by norm_num [maxGridPoints]
    conv_lhs => rw [hsteps, ← mul_assoc]
    exact mul_le_mul_of_nonneg_right (hlow.trans (h.steps_lt.trans_eq hmax).le) hstep.le

theorem span_le (h : Measures grid stop last) (hpos : 0 < value (stop - grid.start)) :
    value (stop - grid.start) ≤ (1 + roundoff) * (value stop - value grid.start) := by
  have hnonneg : 0 ≤ value stop - value grid.start := by
    by_contra hneg
    have := h.nearest_span.le_of_le .zero (not_le.1 hneg).le
    linarith
  have hwell : RoundsWell (value stop - value grid.start) := by
    rw [sub_eq_add_neg]
    exact (isDouble_value h.isFinite_stop).roundsWell_add (isDouble_value h.isFinite_start).neg
  exact (h.nearest_span.bounds_of_nonneg hwell hnonneg).2

/-! ## Points -/

end Measures

/-- The distance of a point from the start, as it is computed. -/
def offset (grid : SampleGrid) (k : Nat) : Float := ofCount k * grid.step

namespace Measures

variable {last j k : Nat}

theorem roundsTo_offset (h : Measures grid stop last) (hk : k ≤ last) :
    RoundsTo (k * value grid.step) (grid.offset k) := by
  have hcount : k ≤ 2 ^ 53 := by
    have := h.last_lt
    unfold maxGridPoints at this
    omega
  obtain ⟨hfinite, hvalue⟩ := value_ofCount hcount
  have hround := roundsTo_mul hfinite h.isFinite_step
  rwa [hvalue] at hround

theorem offset_bounds (h : Measures grid stop last) (hk : k ≤ last)
    (hfinite : (grid.offset k).isFinite = true) :
    (1 - roundoff) * (k * value grid.step) ≤ value (grid.offset k) ∧
      value (grid.offset k) ≤ (1 + roundoff) * (k * value grid.step) := by
  have hstep := h.step_pos
  exact ((h.roundsTo_offset hk).nearest hfinite).bounds_of_nonneg
    ((isDouble_value h.isFinite_step).roundsWell_natCast_mul k) (by positivity)

theorem index_mul_add_le (h : Measures grid stop last) (hkj : k < j) :
    k * value grid.step + value grid.step ≤ j * value grid.step := by
  have hle : (k : Rat) + 1 ≤ j := by exact_mod_cast hkj
  have hmul := mul_le_mul_of_nonneg_right hle h.step_pos.le
  linarith

/-- The index of a point that is not the last one leaves room for a step. -/
theorem index_mul_le (h : Measures grid stop last) (hk : k < last) :
    k * value grid.step + value grid.step ≤ (1 + roundoff) * value (stop - grid.start) := by
  obtain ⟨-, hlast, -⟩ := h.steps_bounds (by omega)
  exact (h.index_mul_add_le hk).trans hlast

/-- The distance of a point within the span is in range. -/
theorem isFinite_offset_of_le (h : Measures grid stop last) (hk : k ≤ last)
    (hle : k * value grid.step ≤ value (stop - grid.start)) :
    (grid.offset k).isFinite = true := by
  have hstep := h.step_pos
  refine (h.roundsTo_offset hk).isFinite isFinite_zero h.isFinite_span ?_ hle
  rw [value_zero]
  positivity

theorem isFinite_offset (h : Measures grid stop last) (hk : k < last) :
    (grid.offset k).isFinite = true := by
  obtain ⟨hpos, -, hspan⟩ := h.steps_bounds (by omega)
  have hindex := h.index_mul_le hk
  rw [roundoff_eq] at hspan hindex
  exact h.isFinite_offset_of_le hk.le (by linarith)

/-- The sum that a point is rounded from does not pass the end, unless the point is the last. -/
theorem offset_add_le (h : Measures grid stop last) (hk : k < last) :
    value (grid.offset k) + value grid.start ≤ value stop := by
  obtain ⟨hpos, -, hspan⟩ := h.steps_bounds (by omega)
  have hle := h.span_le hpos
  have hindex := h.index_mul_le hk
  have hoffset := (h.offset_bounds hk.le (h.isFinite_offset hk)).2
  have hstep := h.step_pos
  rw [roundoff_eq] at hspan hindex hoffset hle
  linarith

theorem offset_nonneg (h : Measures grid stop last) (hk : k ≤ last)
    (hfinite : (grid.offset k).isFinite = true) : 0 ≤ value (grid.offset k) := by
  have hstep := h.step_pos
  exact ((h.roundsTo_offset hk).nearest hfinite).ge_of_ge .zero (by positivity)

theorem index_mul_le_max (h : Measures grid stop last) (hj : j ≤ last) :
    j * value grid.step ≤ 10000000 * value grid.step := by
  have hlt : j ≤ 10000000 := (hj.trans_lt h.last_lt).le
  have hle : (j : Rat) ≤ 10000000 := by exact_mod_cast hlt
  exact mul_le_mul_of_nonneg_right hle h.step_pos.le

/-- Neighbouring distances differ by a good part of a step. -/
theorem offset_add_le_offset (h : Measures grid stop last) (hkj : k < j) (hj : j ≤ last)
    (hfinite : (grid.offset j).isFinite = true) :
    value (grid.offset k) + 3 / 4 * value grid.step ≤ value (grid.offset j) := by
  have hstep := h.step_pos
  have hk := (h.offset_bounds (by omega) (h.isFinite_offset (by omega : k < last))).2
  have hlow := (h.offset_bounds hj hfinite).1
  have hnext := h.index_mul_add_le hkj
  have hmany := h.index_mul_le_max hj
  rw [roundoff_eq] at hk hlow
  linarith

theorem roundsTo_point (h : Measures grid stop last)
    (hfinite : (grid.offset k).isFinite = true) :
    RoundsTo (value (grid.offset k) + value grid.start) (grid.point k) :=
  roundsTo_add hfinite h.isFinite_start

/-- The sum that a point is rounded from is that of two doubles. -/
theorem roundsWell_sum (h : Measures grid stop last)
    (hfinite : (grid.offset k).isFinite = true) :
    RoundsWell (value (grid.offset k) + value grid.start) :=
  (isDouble_value hfinite).roundsWell_add (isDouble_value h.isFinite_start)

theorem isFinite_point (h : Measures grid stop last) (hk : k < last) :
    (grid.point k).isFinite = true := by
  have hfinite := h.isFinite_offset hk
  have hnonneg := h.offset_nonneg hk.le hfinite
  exact (h.roundsTo_point hfinite).isFinite h.isFinite_start h.isFinite_stop (by linarith)
    (h.offset_add_le hk)

theorem point_le_stop (h : Measures grid stop last) (hk : k < last) : grid.point k ≤ stop :=
  (h.roundsTo_point (h.isFinite_offset hk)).le_of_le h.isFinite_stop (h.offset_add_le hk)

/-- A point is computed from a finite distance, or it is out of range above. -/
theorem point_cases (h : Measures grid stop last) (hk : k ≤ last) :
    ((grid.offset k).isFinite = true ∧ (grid.point k).isFinite = true) ∨
      (grid.point k).toModel.unpack = .infinity .positive := by
  have hstep := h.step_pos
  have hindex : 0 ≤ k * value grid.step := by positivity
  cases h.roundsTo_offset hk with
  | finite hfinite _ =>
    have hnonneg := h.offset_nonneg hk hfinite
    cases h.roundsTo_point hfinite with
    | finite hpoint _ => exact .inl ⟨hfinite, hpoint⟩
    | above _ _ hpoint => exact .inr hpoint
    | below hnearest hr _ =>
      have hstart := abs_lt.1 (abs_value_lt h.isFinite_start)
      have := hnearest.ge_of_ge (isDouble_value h.isFinite_start) (by linarith)
      linarith
  | above _ _ hoffset => exact .inr (unpack_add_infinity hoffset h.isFinite_start)
  | below hnearest hr _ =>
    have := hnearest.ge_of_ge .zero hindex
    have := limit_pos
    linarith

/-! ## Order -/

theorem point_le_point (h : Measures grid stop last) (hkj : k < j) (hj : j ≤ last) :
    grid.point k ≤ grid.point j := by
  have hstep := h.step_pos
  have hk := h.roundsTo_point (h.isFinite_offset (by omega : k < last))
  rcases h.point_cases hj with ⟨hoffset, -⟩ | hinfinite
  · have hapart := h.offset_add_le_offset hkj hj hoffset
    exact hk.le_of_lt (h.roundsTo_point hoffset) (by linarith)
  · exact hk.le_infinity hinfinite

/-- Points are apart when a step is more than what rounding near the start loses. -/
theorem point_lt_point (h : Measures grid stop last)
    (hwide : 2 ^ (-51 : Int) * |value grid.start| ≤ value grid.step) (hkj : k < j) (hj : j ≤ last) :
    grid.point k < grid.point j := by
  have hk : k < last := by omega
  have hstep := h.step_pos
  have hkOffset := h.isFinite_offset hk
  have hkFinite := h.isFinite_point hk
  rcases h.point_cases hj with ⟨hjOffset, hjFinite⟩ | hinfinite
  · obtain ⟨-, hhigh⟩ := ((h.roundsTo_point hkOffset).nearest hkFinite).bounds
      (h.roundsWell_sum hkOffset)
    obtain ⟨hlow, -⟩ := ((h.roundsTo_point hjOffset).nearest hjFinite).bounds
      (h.roundsWell_sum hjOffset)
    have hapart := h.offset_add_le_offset hkj hj hjOffset
    have hkAbs := abs_add_le (value (grid.offset k)) (value grid.start)
    have hjAbs := abs_add_le (value (grid.offset j)) (value grid.start)
    rw [abs_of_nonneg (h.offset_nonneg hk.le hkOffset)] at hkAbs
    rw [abs_of_nonneg (h.offset_nonneg hj hjOffset)] at hjAbs
    have hjLarge := (h.offset_bounds hj hjOffset).2
    have hmany := h.index_mul_le_max hj
    have hunit : (2 : Rat) ^ (-51 : Int) = 1 / 2251799813685248 := by norm_num
    rw [hunit] at hwide
    rw [roundoff_eq] at hhigh hlow hjLarge
    rw [lt_iff_value_lt hkFinite hjFinite]
    linarith
  · rw [lt_iff_compare, hinfinite]
    exact (compare_infinity hkFinite).1

/-! ## The last point -/

/-- When neither the span nor the quotient is rounded up, no point passes the end. -/
theorem point_le_stop_of_le (h : Measures grid stop last)
    (hspan : value (stop - grid.start) ≤ value stop - value grid.start)
    (hsteps : value ((stop - grid.start) / grid.step) * value grid.step ≤
      value (stop - grid.start)) (hk : k ≤ last) : grid.point k ≤ stop := by
  have hstep := h.step_pos
  have hindex : k * value grid.step ≤ value (stop - grid.start) := by
    have hle : (k : Rat) ≤ value ((stop - grid.start) / grid.step) := by
      have : (k : Rat) ≤ last := by exact_mod_cast hk
      exact this.trans h.last_le
    exact (mul_le_mul_of_nonneg_right hle hstep.le).trans hsteps
  have hfinite := h.isFinite_offset_of_le hk hindex
  have hoffset := ((h.roundsTo_offset hk).nearest hfinite).le_of_le h.isDouble_span hindex
  exact (h.roundsTo_point hfinite).le_of_le h.isFinite_stop (by linarith)

/-- The first point is the start. -/
theorem value_point_zero (h : Measures grid stop last) :
    (grid.point 0).isFinite = true ∧ value (grid.point 0) = value grid.start := by
  have hround := h.roundsTo_offset (Nat.zero_le last)
  rw [Nat.cast_zero, zero_mul] at hround
  obtain ⟨hfinite, hvalue⟩ := hround.exact .zero (by rw [abs_zero]; exact limit_pos)
  have hpoint := h.roundsTo_point hfinite
  rw [hvalue, zero_add] at hpoint
  exact hpoint.exact (isDouble_value h.isFinite_start) (abs_value_lt h.isFinite_start)

/-- An interval that ends before it starts has one point, if it is accepted. -/
theorem last_eq_zero (h : Measures grid stop last) (hlt : value stop < value grid.start) :
    last = 0 := by
  by_contra hlast
  obtain ⟨hpos, -, -⟩ := h.steps_bounds (Nat.one_le_iff_ne_zero.2 hlast)
  have hle := h.span_le hpos
  rw [roundoff_eq] at hle
  linarith

/-- A point passes the end by no more than the four roundings of its computation can give. -/
theorem value_point_le (h : Measures grid stop last) (hle : value grid.start ≤ value stop)
    (hk : k ≤ last) (hfinite : (grid.point k).isFinite = true) :
    value (grid.point k) ≤
      value stop + 2 ^ (-50 : Int) * max |value grid.start| |value stop| := by
  have hmax : 0 ≤ max |value grid.start| |value stop| := le_max_of_le_left (abs_nonneg _)
  have hunit : (2 : Rat) ^ (-50 : Int) = 1 / 1125899906842624 := by norm_num
  rw [hunit]
  by_cases hzero : k = 0
  · rw [hzero, h.value_point_zero.2]
    linarith
  · obtain ⟨hpos, hlast, -⟩ := h.steps_bounds (by omega)
    have hspan := h.span_le hpos
    have hoffset : (grid.offset k).isFinite = true := by
      rcases h.point_cases hk with ⟨hoffset, -⟩ | hinfinite
      · exact hoffset
      · change (grid.point k).toModel.unpack.isFinite = true at hfinite
        rw [hinfinite] at hfinite
        cases hfinite
    have hindex : k * value grid.step ≤ last * value grid.step :=
      mul_le_mul_of_nonneg_right (by exact_mod_cast hk) h.step_pos.le
    have hnonneg := h.offset_nonneg hk hoffset
    have hround := (h.offset_bounds hk hoffset).2
    obtain ⟨-, hhigh⟩ := ((h.roundsTo_point hoffset).nearest hfinite).bounds
      (h.roundsWell_sum hoffset)
    have hstart := abs_le.1 (le_max_left |value grid.start| |value stop|)
    have hstop := abs_le.1 (le_max_right |value grid.start| |value stop|)
    generalize max |value grid.start| |value stop| = M at hmax hstart hstop ⊢
    rw [roundoff_eq] at hlast hspan hround hhigh
    have habs : |value (grid.offset k) + value grid.start| ≤ 11 / 10 * M := by
      rw [abs_le]
      constructor <;> linarith
    linarith

end Measures

/-! ## Grids -/

theorem length_points (grid : SampleGrid) : grid.points.length = grid.count := by
  rw [points, List.length_map, List.length_range]

/-- What holds of the points of a grid in order holds of the grid. -/
theorem pairwise_points {R : Float → Float → Prop} {last : Nat} (hcount : grid.count = last + 1)
    (h : ∀ k j, k < j → j ≤ last → R (grid.point k) (grid.point j)) :
    grid.points.Pairwise R := by
  rw [points, List.pairwise_map]
  refine List.pairwise_lt_range.imp_of_mem ?_
  intro k j _ hj hlt
  rw [List.mem_range, hcount] at hj
  exact h k j hlt (by omega)

theorem mem_points_iff {last : Nat} {t : Float} (hcount : grid.count = last + 1) :
    t ∈ grid.points ↔ ∃ k ≤ last, grid.point k = t := by
  simp only [points, hcount, List.mem_map, List.mem_range, Nat.lt_succ_iff]

theorem mem_dropLast_points_iff {last : Nat} {t : Float} (hcount : grid.count = last + 1) :
    t ∈ grid.points.dropLast ↔ ∃ k < last, grid.point k = t := by
  rw [points, hcount, List.range_succ, List.map_append, List.map_singleton, List.dropLast_concat]
  simp

/-- **The points of a sample grid.** There are between one and `maxGridPoints` of them, in
ascending order from the start, and none but the last passes the end of the interval; the last one
passes it by a few units in the last place at most. The points are apart when the step is wide
enough to be told from rounding, and none of them passes the end when neither the span nor the
number of steps is rounded up. An interval whose end comes before its start has a single point. -/
theorem points_spaced (h : make? start stop dt = .ok grid) :
    (1 ≤ grid.points.length ∧ grid.points.length ≤ maxGridPoints) ∧
    (∃ first, grid.points.head? = some first ∧ (first == start) = true) ∧
    grid.points.Pairwise (· ≤ ·) ∧
    (∀ t ∈ grid.points.dropLast, t ≤ stop) ∧
    (start ≤ stop → ∀ t ∈ grid.points, t.isFinite = true →
      value t ≤ value stop + 2 ^ (-50 : Int) * max |value start| |value stop|) ∧
    (stop < start → grid.points.length = 1) ∧
    (2 ^ (-51 : Int) * |value start| ≤ value dt → grid.points.Pairwise (· < ·)) ∧
    (value (stop - start) ≤ value stop - value start →
      value ((stop - start) / dt) * value dt ≤ value (stop - start) →
      ∀ t ∈ grid.points, t ≤ stop) := by
  obtain ⟨rfl, rfl, last, hmeasures⟩ := measures_of_make? h
  have hcount := hmeasures.count_eq
  have hlast := hmeasures.last_lt
  rw [length_points, hcount]
  refine ⟨by omega, ?_, ?_, ?_, ?_, ?_, ?_, ?_⟩
  · obtain ⟨hfinite, hvalue⟩ := hmeasures.value_point_zero
    refine ⟨grid.point 0, ?_, (beq_iff_value_eq hfinite hmeasures.isFinite_start).2 hvalue⟩
    rw [points, hcount, List.range_succ_eq_map]
    rfl
  · exact pairwise_points hcount fun k j => hmeasures.point_le_point
  · intro t ht
    obtain ⟨k, hk, rfl⟩ := (mem_dropLast_points_iff hcount).1 ht
    exact hmeasures.point_le_stop hk
  · intro hle t ht hfinite
    obtain ⟨k, hk, rfl⟩ := (mem_points_iff hcount).1 ht
    exact hmeasures.value_point_le
      ((le_iff_value_le hmeasures.isFinite_start hmeasures.isFinite_stop).1 hle) hk hfinite
  · intro hlt
    rw [hmeasures.last_eq_zero
      ((lt_iff_value_lt hmeasures.isFinite_stop hmeasures.isFinite_start).1 hlt)]
  · intro hwide
    exact pairwise_points hcount fun k j => hmeasures.point_lt_point hwide
  · intro hspan hsteps t ht
    obtain ⟨k, hk, rfl⟩ := (mem_points_iff hcount).1 ht
    exact hmeasures.point_le_stop_of_le hspan hsteps hk

theorem points_spaced_sample :
    ∃ grid, make? 2.0 3.0 0.25 = .ok grid ∧ grid.points.length ≤ maxGridPoints ∧
      2 ^ (-51 : Int) * |value 2.0| ≤ value 0.25 ∧ grid.points.Pairwise (· < ·) ∧
      ∀ t ∈ grid.points, t ≤ 3.0 := by
  obtain ⟨grid, hgrid⟩ := exists_eq_ok_of_isOk (x := make? 2.0 3.0 0.25) (by decide +kernel)
  obtain ⟨⟨-, hmax⟩, -, -, -, -, -, hapart, hwithin⟩ := points_spaced hgrid
  have hwide : 2 ^ (-51 : Int) * |value 2.0| ≤ value 0.25 := by decide +kernel
  have hspan : value (3.0 - 2.0) ≤ value 3.0 - value 2.0 := by decide +kernel
  have hsteps : value ((3.0 - 2.0) / 0.25) * value 0.25 ≤ value (3.0 - 2.0) := by decide +kernel
  exact ⟨grid, hgrid, hmax, hwide, hapart hwide, hwithin hspan hsteps⟩

/-- The last point can pass the end of the interval: three steps of `0.65` make slightly more than
`1.95`, but the quotient is rounded to three. -/
theorem points_pass_stop :
    ∃ grid, make? 0.0 1.95 0.65 = .ok grid ∧ ∃ t ∈ grid.points, 1.95 < t :=
  ⟨⟨0.0, 0.65, 4⟩, by decide +kernel, by decide +kernel⟩

/-- Points repeat when the step is less than the distance of the doubles there. -/
example : ∃ grid, make? 9007199254740992.0 9007199254740996.0 0.5 = .ok grid ∧
    ¬ grid.points.Pairwise (· < ·) :=
  ⟨⟨9007199254740992.0, 0.5, 9⟩, by decide +kernel, by decide +kernel⟩

end PulseNoise.Sampling.SampleGrid
