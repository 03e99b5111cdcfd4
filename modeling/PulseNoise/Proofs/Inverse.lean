import PulseNoise.Proofs.Negation
import PulseNoise.Proofs.Resonance
import PulseNoise.Proofs.SquareRoot

/-!
# Inverses of positive doubles

The inverse of a positive double is positive or an infinity, and the difference of two inverses in
the right order can be inverted again. The one exception is at the lower end: a double of at most
`2 ^ (-1024)` has an inverse that is out of range, and with an infinity for an inverse the
difference is an infinity or a NaN.

* `infinite_or_finite_of_pos` takes positive doubles apart.
* `isFinite_inverse_iff` says which inverses are finite.
* `inverse_sub_inverse_pos`, `inverse_sub_inverse_of_unpack_eq` and `inverse_sub_of_infinite` say
  what the inverse of a difference of inverses is.
* `upTo_div_sqrt` bounds a quotient by a root.
-/

namespace PulseNoise.Number

open Float.Model Float.Model.UnpackedFloat

variable {x y z c : Float} {q : Rat}

/-! ## Positive doubles -/

theorem pos_iff_value_pos (hx : x.isFinite = true) : 0.0 < x ↔ 0 < value x := by
  rw [lt_iff_value_lt stands_zero.isFinite hx, stands_zero.value_eq]

/-- A positive double is the infinity, or it is finite and its number is positive. -/
theorem infinite_or_finite_of_pos (h : 0.0 < x) :
    x.toModel.unpack = .infinity .positive ∨ x.isFinite = true ∧ 0 < value x := by
  by_cases hx : x.isFinite = true
  · exact .inr ⟨hx, (pos_iff_value_pos hx).1 h⟩
  · rw [lt_iff_compare, show (0.0 : Float).toModel.unpack = .zero .positive by rfl] at h
    change ¬ x.toModel.unpack.isFinite = true at hx
    revert h hx
    cases x.toModel.unpack with
    | infinity s =>
      cases s with
      | negative => exact nofun
      | positive => exact fun _ _ => .inl rfl
    | notANumber => exact nofun
    | zero s | finite s m e hm => exact fun _ h => absurd rfl h

/-- What is positive and compares as equal is the same: only zeros have two forms. -/
theorem eq_of_compare_eq {f g : UnpackedFloat} (h : f.compare g = some .eq)
    (hf : UnpackedFloat.compare (.zero .positive) f = some .lt) : f = g := by
  cases alike_of_compare_eq h with
  | refl => rfl
  | zeros s t => cases hf

theorem unpack_eq_of_beq (h : 0.0 < x) (hbeq : (x == y) = true) :
    x.toModel.unpack = y.toModel.unpack :=
  eq_of_compare_eq (beq_iff_compare.1 hbeq) (lt_iff_compare.1 h)

/-- A finite positive double is not below the least one. -/
theorem least_le_value (hx : x.isFinite = true) (h : 0 < value x) : least ≤ value x := by
  obtain ⟨n, hn⟩ := (isDouble_value hx).exists_multiple
  rw [hn] at h ⊢
  have hpos : 0 < n := by exact_mod_cast pos_of_mul_pos_left h least_pos.le
  have hone : (1 : Rat) ≤ n := by exact_mod_cast hpos
  exact le_mul_of_one_le_left least_pos.le hone

/-- Two finite doubles differ by the least one or by more, since they are multiples of it. -/
theorem least_le_sub (hx : x.isFinite = true) (hy : y.isFinite = true) (h : value y < value x) :
    least ≤ value x - value y := by
  obtain ⟨m, hm⟩ := (isDouble_value hx).exists_multiple
  obtain ⟨n, hn⟩ := (isDouble_value hy).exists_multiple
  rw [hm, hn] at h ⊢
  have hint : n < m := by exact_mod_cast lt_of_mul_lt_mul_right h least_pos.le
  have hcast : (1 : Rat) ≤ m - n := by exact_mod_cast Int.sub_pos_of_lt hint
  rw [← sub_mul]
  exact le_mul_of_one_le_left least_pos.le hcast

theorem isDouble_two_zpow {k : Int} (hk : -1074 ≤ k) : IsDouble (2 ^ k) :=
  ⟨1, k, by norm_num, hk, by norm_num⟩

theorem RoundsTo.isFinite_or_infinite (h : RoundsTo q z) (hq : 0 ≤ q) :
    z.isFinite = true ∨ z.toModel.unpack = .infinity .positive := by
  cases h with
  | finite hz h => exact .inl hz
  | above h hr hz => exact .inr hz
  | below h hr hz =>
    have := h.ge_of_ge .zero hq
    have := limit_pos
    linarith

/-- What is not below the least double is rounded to a positive double. -/
theorem RoundsTo.pos (h : RoundsTo q z) (hq : least ≤ q) : 0.0 < z := by
  rcases h.isFinite_or_infinite (least_pos.le.trans hq) with hz | hz
  · have hvalue := (h.nearest hz).ge_of_ge (isDouble_two_zpow le_rfl) hq
    exact (pos_iff_value_pos hz).2 (least_pos.trans_le hvalue)
  · rw [lt_iff_compare, hz]
    rfl

/-! ## Infinities -/

theorem inverse_of_infinite (h : x.toModel.unpack = .infinity .positive) : 1.0 / x = 0.0 := by
  change Float.ofModel (.pack (UnpackedFloat.div _ _ x.toModel.unpack)) = _
  rw [h]
  rfl

theorem inverse_of_zero (h : x.toModel.unpack = .zero .positive) : 1.0 / x = 1.0 / 0.0 := by
  change Float.ofModel (.pack (UnpackedFloat.div _ _ x.toModel.unpack)) = _
  rw [h]
  rfl

theorem two_mul_of_infinite (h : x.toModel.unpack = .infinity .positive) :
    (2.0 * x).toModel.unpack = .infinity .positive := by
  change (Float.ofModel (.pack (UnpackedFloat.mul _ _ x.toModel.unpack))).toModel.unpack = _
  rw [h]
  rfl

theorem two_mul_pos (h : 0.0 < x) : 0.0 < 2.0 * x := by
  rcases infinite_or_finite_of_pos h with hx | ⟨hx, hpos⟩
  · rw [lt_iff_compare, two_mul_of_infinite hx]
    rfl
  · have hround := roundsTo_mul stands_two.isFinite hx
    rw [stands_two.value_eq] at hround
    refine hround.pos ?_
    linarith [least_le_value hx hpos]

/-- A double minus itself is the positive zero. -/
theorem unpack_sub_of_eq (hx : x.isFinite = true) (h : x.toModel.unpack = y.toModel.unpack) :
    (x - y).toModel.unpack = .zero .positive := by
  have hzero : UnpackedFloat.sub Format.binary64 x.toModel.unpack x.toModel.unpack =
      .zero .positive := by
    change x.toModel.unpack.isFinite = true at hx
    revert hx
    cases x.toModel.unpack with
    | infinity s | notANumber => nofun
    | zero s => cases s <;> exact fun _ => rfl
    | finite s m e hm =>
      intro _
      change UnpackedFloat.normalize _ (s.apply _ - s.apply _) _ _ = _
      rw [sub_self]
      rfl
  change UnpackedFloat.unpack _ (UnpackedFloat.pack _
    (UnpackedFloat.sub _ x.toModel.unpack y.toModel.unpack)) = _
  rw [← h, hzero]
  rfl

/-! ## Inverses -/

/-- The greatest double whose inverse is out of range, `2 ^ (-1024)`. -/
def inverseBound : Float := Float.ofBits 0x0004000000000000

theorem stands_inverseBound : Stands inverseBound (2 ^ (-1024 : Int)) := by
  refine ⟨rfl, ?_⟩
  change ((2 ^ 50 : Nat) : Rat) * 2 ^ (-1074 : Int) = 2 ^ ((50 : Nat) + -1074 : Int)
  rw [zpow_add₀ two_ne_zero, zpow_natCast, Nat.cast_pow, Nat.cast_ofNat]

theorem value_greatest : value greatest = (2 ^ 53 - 1) * 2 ^ (971 : Int) := by
  change ((2 ^ 53 - 1 : Nat) : Rat) * 2 ^ (971 : Int) = _
  norm_num

theorem two_zpow_le_greatest {k : Int} (hk : k ≤ 1023) : 2 ^ k ≤ value greatest := by
  rw [value_greatest]
  calc (2 : Rat) ^ k ≤ 2 ^ (1023 : Int) := zpow_le_zpow_right₀ one_le_two hk
    _ = 2 ^ (52 : Int) * 2 ^ (971 : Int) := by
      rw [← zpow_add₀ two_ne_zero, show (52 : Int) + 971 = 1023 by norm_num]
    _ ≤ (2 ^ 53 - 1) * 2 ^ (971 : Int) :=
      mul_le_mul_of_nonneg_right (by norm_num) (by positivity)

theorem roundsTo_inverse (hx : x.isFinite = true) (hpos : 0 < value x) :
    RoundsTo (1 / value x) (1.0 / x) := by
  have hround := roundsTo_div stands_one.isFinite hx hpos.ne'
  rwa [stands_one.value_eq] at hround

/-- Finite doubles are in range, so that their inverses do not vanish. -/
theorem inverse_pos (hx : x.isFinite = true) (hpos : 0 < value x) : 0.0 < 1.0 / x := by
  refine (roundsTo_inverse hx hpos).pos ?_
  rw [le_div_iff₀ hpos]
  have hlimit : value x < limit := (abs_lt.1 (abs_value_lt hx)).2
  calc least * value x ≤ least * limit := by gcongr; exact least_pos.le
    _ = 2 ^ (-50 : Int) := by
      rw [least, limit, ← zpow_add₀ two_ne_zero, show (-1074 : Int) + 1024 = -50 by norm_num]
    _ ≤ 1 := by norm_num

theorem isFinite_inverse_iff (h : 0.0 < x) : (1.0 / x).isFinite = true ↔ inverseBound < x := by
  rcases infinite_or_finite_of_pos h with hx | ⟨hx, hpos⟩
  · refine iff_of_true ?_ ?_
    · rw [inverse_of_infinite hx]
      exact stands_zero.isFinite
    · rw [lt_iff_compare, hx]
      exact (compare_infinity (f := inverseBound.toModel.unpack) stands_inverseBound.isFinite).1
  rw [lt_iff_value_lt stands_inverseBound.isFinite hx, stands_inverseBound.value_eq]
  have hround := roundsTo_inverse hx hpos
  constructor
  · intro hz
    by_contra hle
    have hlimit : limit ≤ 1 / value x := by
      rw [le_div_iff₀ hpos]
      calc limit * value x ≤ limit * 2 ^ (-1024 : Int) :=
            mul_le_mul_of_nonneg_left (not_lt.1 hle) limit_pos.le
        _ = 1 := by
          rw [limit, ← zpow_add₀ two_ne_zero, show (1024 : Int) + -1024 = 0 by norm_num, zpow_zero]
    have hvalue := (hround.nearest hz).ge_of_ge (isDouble_two_zpow (by norm_num)) hlimit
    exact absurd (abs_lt.1 (abs_value_lt hz)).2 (not_lt.2 hvalue)
  · intro hlt
    -- the next double after the bound has an inverse in range
    have hnext : 2 ^ (-1024 : Int) + least ≤ value x := by
      have hgap := least_le_sub hx stands_inverseBound.isFinite
        (stands_inverseBound.value_eq.trans_lt hlt)
      rw [stands_inverseBound.value_eq] at hgap
      exact le_sub_iff_add_le'.1 hgap
    refine hround.isFinite_of_abs_le ?_
    have hgreatest : 0 ≤ value greatest := by
      rw [value_greatest]
      positivity
    rw [abs_of_pos (one_div_pos.2 hpos), div_le_iff₀ hpos]
    refine le_trans ?_ (mul_le_mul_of_nonneg_left hnext hgreatest)
    rw [value_greatest, least, mul_add, mul_assoc, mul_assoc, ← zpow_add₀ two_ne_zero,
      ← zpow_add₀ two_ne_zero]
    norm_num

/-- A positive double with an inverse out of range has an infinite inverse. -/
theorem infinite_inverse (h : 0.0 < x) (hbound : ¬ inverseBound < x) :
    (1.0 / x).toModel.unpack = .infinity .positive := by
  rcases infinite_or_finite_of_pos h with hx | ⟨hx, hpos⟩
  · refine absurd ((isFinite_inverse_iff h).1 ?_) hbound
    rw [inverse_of_infinite hx]
    exact stands_zero.isFinite
  · refine ((roundsTo_inverse hx hpos).isFinite_or_infinite (by positivity)).resolve_left ?_
    rwa [isFinite_inverse_iff h]

/-! ## Differences of inverses -/

/-- The difference of two doubles is not rounded to zero. -/
theorem value_sub_pos (hx : x.isFinite = true) (hy : y.isFinite = true) (h : value x < value y)
    (hsub : (y - x).isFinite = true) : 0 < value (y - x) :=
  (pos_iff_value_pos hsub).1 ((roundsTo_sub hy hx).pos (least_le_sub hy hx h))

theorem inverse_eq_of_unpack_eq (h : x.toModel.unpack = y.toModel.unpack) : 1.0 / x = 1.0 / y := by
  change Float.ofModel (.pack (UnpackedFloat.div _ _ x.toModel.unpack)) =
    .ofModel (.pack (UnpackedFloat.div _ _ y.toModel.unpack))
  rw [h]

theorem inverse_nonneg (hx : 0.0 < x) (hz : (1.0 / x).isFinite = true) : 0 ≤ value (1.0 / x) := by
  rcases infinite_or_finite_of_pos hx with hx | ⟨hx, hpos⟩
  · rw [inverse_of_infinite hx, stands_zero.value_eq]
  · exact ((pos_iff_value_pos hz).1 (inverse_pos hx hpos)).le

/-- The inverse of what is not below `x` is the inverse of `x` or less. -/
theorem inverse_eq_or_lt (hx : 0.0 < x) (hy : 0.0 < y) (hle : ¬ y < x) (hbound : inverseBound < x) :
    (1.0 / y).isFinite = true ∧
      ((1.0 / x).toModel.unpack = (1.0 / y).toModel.unpack ∨
        value (1.0 / y) < value (1.0 / x)) := by
  rcases infinite_or_finite_of_pos hy with hy | ⟨hy, hypos⟩
  · rw [inverse_of_infinite hy]
    refine ⟨stands_zero.isFinite, ?_⟩
    rcases infinite_or_finite_of_pos hx with hx | ⟨hx, hxpos⟩
    · exact .inl (by rw [inverse_of_infinite hx])
    · have hfinite := (isFinite_inverse_iff ((pos_iff_value_pos hx).2 hxpos)).2 hbound
      exact .inr ((lt_iff_value_lt stands_zero.isFinite hfinite).1 (inverse_pos hx hxpos))
  · rcases infinite_or_finite_of_pos hx with hx | ⟨hx, hxpos⟩
    · refine absurd ?_ hle
      rw [lt_iff_compare, hx]
      exact (compare_infinity (f := y.toModel.unpack) hy).1
    · rw [lt_iff_value_lt hy hx, not_lt] at hle
      have hxbound := (pos_iff_value_pos hx).2 hxpos
      have hfinite := (isFinite_inverse_iff hxbound).2 hbound
      have hfinite' : (1.0 / y).isFinite = true := by
        rw [isFinite_inverse_iff ((pos_iff_value_pos hy).2 hypos)]
        rw [lt_iff_value_lt stands_inverseBound.isFinite hx] at hbound
        exact (lt_iff_value_lt stands_inverseBound.isFinite hy).2 (hbound.trans_le hle)
      refine ⟨hfinite', ?_⟩
      rcases hle.lt_or_eq with hlt | heq
      · have hinverse : value (1.0 / y) ≤ value (1.0 / x) :=
          ((roundsTo_inverse hy hypos).nearest hfinite').le_of_lt
            ((roundsTo_inverse hx hxpos).nearest hfinite) (one_div_lt_one_div_of_lt hxpos hlt)
        rcases hinverse.lt_or_eq with hlt' | heq'
        · exact .inr hlt'
        · refine .inl (unpack_eq_of_beq (inverse_pos hx hxpos) ?_)
          exact (beq_iff_value_eq hfinite hfinite').2 heq'.symm
      · have hsame := unpack_eq_of_beq hxbound ((beq_iff_value_eq hx hy).2 heq)
        exact .inl (by rw [inverse_eq_of_unpack_eq hsame])

/-- When the smaller of two doubles has a finite inverse, the difference of their inverses has a
positive inverse. -/
theorem inverse_sub_inverse_pos (hx : 0.0 < x) (hy : 0.0 < y) (hle : ¬ y < x)
    (hbound : inverseBound < x) : 0.0 < 1.0 / (1.0 / x - 1.0 / y) := by
  have hfinite := (isFinite_inverse_iff hx).2 hbound
  obtain ⟨hfinite', hsame | hlt⟩ := inverse_eq_or_lt hx hy hle hbound
  · rw [inverse_of_zero (unpack_sub_of_eq hfinite hsame)]
    exact of_decide_eq_true rfl
  · -- the difference does not exceed the greater inverse
    have hnonneg := inverse_nonneg hy hfinite'
    have hdifference : (1.0 / x - 1.0 / y).isFinite = true :=
      (roundsTo_sub hfinite hfinite').isFinite stands_zero.isFinite hfinite
        (stands_zero.value_eq.trans_le (sub_nonneg.2 hlt.le)) (sub_le_self _ hnonneg)
    exact inverse_pos hdifference (value_sub_pos hfinite' hfinite hlt hdifference)

/-- Inverses of the same do not differ, and the inverse of no difference is the infinity. -/
theorem inverse_sub_inverse_of_unpack_eq (hx : 0.0 < x) (h : x.toModel.unpack = y.toModel.unpack)
    (hbound : inverseBound < x) : 1.0 / (1.0 / x - 1.0 / y) = 1.0 / 0.0 := by
  have hfinite := (isFinite_inverse_iff hx).2 hbound
  have hsame := congrArg (·.toModel.unpack) (inverse_eq_of_unpack_eq h)
  exact inverse_of_zero (unpack_sub_of_eq hfinite hsame)

/-- Nothing finite is left of the inverse of a difference from an infinity. -/
theorem inverse_sub_of_infinite (hx : x.toModel.unpack = .infinity .positive) (y : Float) :
    1.0 / (x - y) = 0.0 ∨ 1.0 / (x - y) = 0.0 / 0.0 := by
  have hsub : UnpackedFloat.sub Format.binary64 x.toModel.unpack y.toModel.unpack =
        .infinity .positive ∨
      UnpackedFloat.sub Format.binary64 x.toModel.unpack y.toModel.unpack = .notANumber := by
    rw [hx]
    cases y.toModel.unpack with
    | zero s | finite s m e hm => exact .inl rfl
    | notANumber => exact .inr rfl
    | infinity s =>
      cases s with
      | positive => exact .inr rfl
      | negative => exact .inl rfl
  have hdifference : (x - y).toModel.unpack = UnpackedFloat.unpack Format.binary64
      (UnpackedFloat.pack Format.binary64
        (UnpackedFloat.sub _ x.toModel.unpack y.toModel.unpack)) := rfl
  rcases hsub with hsub | hsub <;> rw [hsub] at hdifference
  · exact .inl (inverse_of_infinite hdifference)
  · right
    change Float.ofModel (.pack (UnpackedFloat.div _ _ (x - y).toModel.unpack)) = _
    rw [hdifference]
    rfl

/-! ## Quotients by roots -/

/-- A double that stands for a number between zero and a bound. -/
def UpTo (bound : Rat) (x : Float) : Prop := ∃ q, Stands x q ∧ 0 ≤ q ∧ q ≤ bound

theorem stands_div_infinite (hc : c.isFinite = true)
    (hx : x.toModel.unpack = .infinity .positive) : Stands (c / x) 0 := by
  have hzero (s : Sign) : Stands (Float.ofModel (.pack (.zero s))) 0 := by
    cases s <;> exact ⟨rfl, rfl⟩
  have hdiv : ∃ s, UnpackedFloat.div Format.binary64 c.toModel.unpack x.toModel.unpack =
      .zero s := by
    change c.toModel.unpack.isFinite = true at hc
    rw [hx]
    revert hc
    cases c.toModel.unpack with
    | zero s | finite s m e hm => exact fun _ => ⟨s / .positive, rfl⟩
    | infinity s | notANumber => nofun
  obtain ⟨s, hs⟩ := hdiv
  have hquotient : c / x = Float.ofModel (.pack (.zero s)) := congrArg (Float.ofModel <| .pack ·) hs
  exact hquotient ▸ hzero s

theorem sqrt_of_infinite (hx : x.toModel.unpack = .infinity .positive) :
    x.sqrt.toModel.unpack = .infinity .positive := by
  change UnpackedFloat.unpack _ (UnpackedFloat.pack _ (UnpackedFloat.sqrt _ x.toModel.unpack)) = _
  rw [hx]
  rfl

/-- The root of a positive double is not too small to be divided by. -/
theorem upTo_div_sqrt (hc : Stands c q) (hq : 0 ≤ q) (hle : q ≤ 2) (hx : 0.0 < x) :
    UpTo (2 ^ (538 : Int)) (c / x.sqrt) := by
  rcases infinite_or_finite_of_pos hx with hx | ⟨hx, hpos⟩
  · exact ⟨0, stands_div_infinite hc.isFinite (sqrt_of_infinite hx), le_rfl, by positivity⟩
  · have hroot : 2 ^ (-537 : Int) ≤ value x.sqrt := by
      refine le_value_sqrt hx hpos.le (isDouble_two_zpow (by norm_num)) (by positivity) ?_
      rw [← zpow_add₀ two_ne_zero, show (-537 : Int) + -537 = -1074 by norm_num]
      exact least_le_value hx hpos
    have hrootpos : 0 < value x.sqrt :=
      (by positivity : (0 : Rat) < 2 ^ (-537 : Int)).trans_le hroot
    have hfinite := isFinite_sqrt hx hpos.le
    have hround := roundsTo_div hc.isFinite hfinite hrootpos.ne'
    rw [hc.value_eq] at hround
    have hnonneg : 0 ≤ q / value x.sqrt := div_nonneg hq hrootpos.le
    have hquotient : q / value x.sqrt ≤ 2 ^ (538 : Int) := by
      rw [div_le_iff₀ hrootpos]
      refine hle.trans (le_trans ?_ (mul_le_mul_of_nonneg_left hroot (by positivity)))
      rw [← zpow_add₀ two_ne_zero]
      norm_num
    have hz : (c / x.sqrt).isFinite = true := by
      refine hround.isFinite_of_abs_le ?_
      rw [abs_of_nonneg hnonneg]
      exact hquotient.trans (two_zpow_le_greatest (by norm_num))
    refine ⟨_, stands_value hz, (hround.nearest hz).ge_of_ge .zero hnonneg, ?_⟩
    exact (hround.nearest hz).le_of_le (isDouble_two_zpow (by norm_num)) hquotient

end PulseNoise.Number
