import PulseNoise.Proofs.Value
import Mathlib.Algebra.Order.Round
import Mathlib.Data.Int.Log
import Mathlib.Data.Rat.Floor
import Mathlib.Tactic.FieldSimp

/-!
# Nearest doubles

A result of arithmetic is rounded to a nearest double. What rounding means is said here on rational
numbers, with doubles whose exponents have no bound above, so that overflow is a matter of its own.

* `IsDouble` are the numbers that doubles stand for, `Nearest q r` says that `r` is one of them
  and that none is nearer to `q`.
* `Nearest.le_of_le`, `Nearest.le_of_lt` and `Nearest.eq_of_isDouble` say that rounding keeps the
  order and leaves doubles alone.
* `Nearest.abs_sub_le` bounds the relative error.
* `nearest_of_abs_sub_le` is how a nearest double is found: round to a multiple of the right power
  of two.
-/

namespace PulseNoise.Number

/-- The numbers that doubles stand for, those of too great an exponent included. -/
def IsDouble (q : Rat) : Prop := ∃ m e : Int, |m| < 2 ^ 53 ∧ -1074 ≤ e ∧ q = m * 2 ^ e

/-- A double to which none is nearer to a number. -/
structure Nearest (q r : Rat) : Prop where
  isDouble : IsDouble r
  abs_sub_le_abs_sub : ∀ d, IsDouble d → |r - q| ≤ |d - q|

namespace IsDouble

variable {q : Rat}

theorem neg (h : IsDouble q) : IsDouble (-q) := by
  obtain ⟨m, e, hm, he, rfl⟩ := h
  refine ⟨-m, e, ?_, he, ?_⟩
  · rwa [abs_neg]
  · push_cast
    ring

/-- A mantissa that is one too large has a half of its own, with the next exponent. -/
theorem of_abs_le {m e : Int} (hm : |m| ≤ 2 ^ 53) (he : -1074 ≤ e) : IsDouble (m * 2 ^ e) := by
  rcases hm.lt_or_eq with hlt | heq
  · exact ⟨m, e, hlt, he, rfl⟩
  · rcases eq_or_eq_neg_of_abs_eq heq with rfl | rfl
    · refine ⟨2 ^ 52, e + 1, by norm_num, by omega, ?_⟩
      rw [zpow_add_one₀ two_ne_zero]
      push_cast
      ring
    · refine ⟨-2 ^ 52, e + 1, by norm_num, by omega, ?_⟩
      rw [zpow_add_one₀ two_ne_zero]
      push_cast
      ring

theorem zero : IsDouble 0 := ⟨0, 0, by norm_num, by norm_num, by norm_num⟩

/-- A double of a lower exponent than full mantissas with the exponent `t` have is below them. -/
theorem abs_le_of_lt {m e t : Int} (hm : |m| < 2 ^ 53) (het : e < t) :
    |(m : Rat) * 2 ^ e| ≤ 2 ^ 52 * 2 ^ t := by
  have hmq : |(m : Rat)| ≤ 2 ^ 53 := by exact_mod_cast hm.le
  have hpos : (0 : Rat) < 2 ^ e := by positivity
  rw [abs_mul, abs_of_pos hpos]
  calc |(m : Rat)| * 2 ^ e ≤ 2 ^ 53 * 2 ^ e := by gcongr
    _ = 2 ^ 52 * 2 ^ (e + 1) := by
      rw [zpow_add_one₀ two_ne_zero]
      ring
    _ ≤ 2 ^ 52 * 2 ^ t := by
      gcongr
      · norm_num
      · omega

end IsDouble

/-! ## Order -/

namespace Nearest

variable {q q' r r' d : Rat}

theorem eq_of_isDouble (h : Nearest q r) (hq : IsDouble q) : r = q := by
  have hle := h.abs_sub_le_abs_sub q hq
  rw [sub_self, abs_zero] at hle
  exact sub_eq_zero.1 (abs_eq_zero.1 (le_antisymm hle (abs_nonneg _)))

theorem neg (h : Nearest q r) : Nearest (-q) (-r) := by
  refine ⟨h.isDouble.neg, ?_⟩
  intro d hd
  have hle := h.abs_sub_le_abs_sub (-d) hd.neg
  rwa [← abs_neg, ← abs_neg (-d - q), show -(r - q) = -r - -q by ring,
    show -(-d - q) = d - -q by ring] at hle

/-- Rounding does not pass a double. -/
theorem le_of_le (h : Nearest q r) (hd : IsDouble d) (hle : q ≤ d) : r ≤ d := by
  by_contra hlt
  have hnear := h.abs_sub_le_abs_sub d hd
  rw [abs_of_nonneg (by linarith : 0 ≤ d - q), abs_of_nonneg (by linarith : 0 ≤ r - q)] at hnear
  linarith

theorem ge_of_ge (h : Nearest q r) (hd : IsDouble d) (hle : d ≤ q) : d ≤ r := by
  have hneg := h.neg.le_of_le hd.neg (neg_le_neg hle)
  exact neg_le_neg_iff.1 hneg

/-- Rounding keeps the order. -/
theorem le_of_lt (h : Nearest q r) (h' : Nearest q' r') (hlt : q < q') : r ≤ r' := by
  by_contra hgt
  have hnear := h.abs_sub_le_abs_sub r' h'.isDouble
  have hnear' := h'.abs_sub_le_abs_sub r h.isDouble
  -- both numbers would lie on the far side of the middle between the two doubles
  rcases abs_cases (r - q) with ⟨h₁, _⟩ | ⟨h₁, _⟩ <;>
    rcases abs_cases (r' - q) with ⟨h₂, _⟩ | ⟨h₂, _⟩ <;>
    rcases abs_cases (r' - q') with ⟨h₃, _⟩ | ⟨h₃, _⟩ <;>
    rcases abs_cases (r - q') with ⟨h₄, _⟩ | ⟨h₄, _⟩ <;>
    linarith

end Nearest

/-! ## Rounding to a multiple -/

theorem abs_mul_zpow_sub (n q : Rat) (t : Int) : |n * 2 ^ t - q| = |n - q / 2 ^ t| * 2 ^ t := by
  have hpos : (0 : Rat) < 2 ^ t := by positivity
  rw [← abs_of_pos hpos, ← abs_mul, abs_of_pos hpos]
  congr 1
  field_simp

theorem abs_sub_le_of_int {y : Rat} {R : Int} (hR : |(R : Rat) - y| ≤ 1 / 2) (n : Int) :
    |(R : Rat) - y| ≤ |(n : Rat) - y| := by
  by_cases heq : n = R
  · rw [heq]
  · have hint : (1 : Int) ≤ |R - n| := Int.one_le_abs (sub_ne_zero.2 (Ne.symm heq))
    have hone : (1 : Rat) ≤ |(R : Rat) - n| := by exact_mod_cast hint
    have htriangle := abs_sub_le (R : Rat) y n
    rw [abs_sub_comm y n] at htriangle
    linarith

/-- The multiple of a power of two that is nearest to a number is a nearest double, when the power
is the last place of the number. -/
theorem nearest_of_abs_sub_le {q : Rat} {R t : Int} (ht : -1074 ≤ t)
    (hfull : 2 ^ 52 * 2 ^ t ≤ q ∨ t = -1074) (hR : |R| ≤ 2 ^ 53)
    (hround : |(R : Rat) - q / 2 ^ t| ≤ 1 / 2) : Nearest q (R * 2 ^ t) := by
  have hpos : (0 : Rat) < 2 ^ t := by positivity
  have hmultiple (n : Int) : |(R : Rat) * 2 ^ t - q| ≤ |(n : Rat) * 2 ^ t - q| := by
    rw [abs_mul_zpow_sub, abs_mul_zpow_sub]
    exact mul_le_mul_of_nonneg_right (abs_sub_le_of_int hround n) hpos.le
  refine ⟨.of_abs_le hR ht, ?_⟩
  rintro d ⟨m, e, hm, he, rfl⟩
  by_cases hle : t ≤ e
  · -- a multiple of the power of two itself
    have hsplit : (m : Rat) * 2 ^ e = (m * 2 ^ (e - t).toNat : Int) * 2 ^ t := by
      have hexp : e = (e - t).toNat + t := by omega
      conv_lhs => rw [hexp, zpow_add₀ two_ne_zero, zpow_natCast]
      push_cast
      ring
    rw [hsplit]
    exact hmultiple _
  · -- a smaller one, and so no nearer than the least full mantissa
    have hlow : 2 ^ 52 * 2 ^ t ≤ q := hfull.resolve_right (by omega)
    have hdle := (le_abs_self _).trans (IsDouble.abs_le_of_lt hm (not_le.1 hle))
    have hleast := hmultiple (2 ^ 52)
    push_cast at hleast
    refine hleast.trans ?_
    rw [abs_of_nonpos (by linarith), abs_of_nonpos (by linarith)]
    linarith

/-! ## The relative error -/

/-- A number that is not too small has a double nearby. -/
theorem exists_isDouble_near {q : Rat} (hq : 2 ^ (-1022 : Int) ≤ q) :
    ∃ d, IsDouble d ∧ |d - q| ≤ 2 ^ (-53 : Int) * q := by
  have hpos : 0 < q := lt_of_lt_of_le (by positivity) hq
  have hlow : (2 : Rat) ^ Int.log 2 q ≤ q := by exact_mod_cast Int.zpow_log_le_self one_lt_two hpos
  have hhigh : q < 2 ^ (Int.log 2 q + 1) := by
    exact_mod_cast Int.lt_zpow_succ_log_self one_lt_two q
  have hlog : -1022 ≤ Int.log 2 q := by
    rw [← Int.zpow_le_iff_le_log one_lt_two hpos]
    exact_mod_cast hq
  generalize Int.log 2 q = L at hlow hhigh hlog
  obtain ⟨t, rfl⟩ : ∃ t, L = t + 52 := ⟨L - 52, by ring⟩
  have hpt : (0 : Rat) < 2 ^ t := by positivity
  have hround := abs_sub_round (q / 2 ^ t)
  rw [abs_sub_comm] at hround
  have hy : q / 2 ^ t < 2 ^ 53 := by
    rw [div_lt_iff₀ hpt]
    refine hhigh.trans_eq ?_
    rw [show t + 52 + 1 = t + (53 : Nat) by norm_num [add_assoc], zpow_add₀ two_ne_zero,
      zpow_natCast]
    ring
  have hR : |round (q / 2 ^ t)| ≤ 2 ^ 53 := by
    obtain ⟨hbelow, habove⟩ := abs_le.1 hround
    have hnonneg : 0 ≤ q / 2 ^ t := by positivity
    have hlt : |(round (q / 2 ^ t) : Rat)| < 2 ^ 53 + 1 := by
      rw [abs_lt]
      constructor <;> linarith
    have hint : |round (q / 2 ^ t)| < 2 ^ 53 + 1 := by exact_mod_cast hlt
    exact Int.lt_add_one_iff.1 hint
  refine ⟨round (q / 2 ^ t) * 2 ^ t, .of_abs_le hR (by omega), ?_⟩
  calc |(round (q / 2 ^ t) : Rat) * 2 ^ t - q|
      = |(round (q / 2 ^ t) : Rat) - q / 2 ^ t| * 2 ^ t := abs_mul_zpow_sub _ q t
    _ ≤ 1 / 2 * 2 ^ t := by gcongr
    _ = 2 ^ (-53 : Int) * 2 ^ (t + 52) := by
        rw [← zpow_add₀ two_ne_zero, show (-53 : Int) + (t + 52) = t + -1 by ring,
          zpow_add₀ two_ne_zero]
        norm_num
        ring
    _ ≤ 2 ^ (-53 : Int) * q := by gcongr

/-- The greatest relative error of rounding. -/
def roundoff : Rat := 2 ^ (-53 : Int)

theorem roundoff_eq : roundoff = 1 / 9007199254740992 := by
  unfold roundoff
  norm_num

/-- The least positive double. -/
def least : Rat := 2 ^ (-1074 : Int)

theorem least_pos : 0 < least := by
  unfold least
  positivity

/-- The numbers whose rounding has a small relative error: those that are not too small, and the
multiples of the least double. -/
def RoundsWell (q : Rat) : Prop := 2 ^ (-1022 : Int) ≤ |q| ∨ ∃ n : Int, q = n * least

theorem IsDouble.exists_multiple {q : Rat} (h : IsDouble q) : ∃ n : Int, q = n * least := by
  obtain ⟨m, e, -, he, rfl⟩ := h
  refine ⟨m * 2 ^ (e + 1074).toNat, ?_⟩
  have hexp : (2 : Rat) ^ e = 2 ^ (e + 1074).toNat * least := by
    rw [least, ← zpow_natCast, ← zpow_add₀ two_ne_zero]
    congr 1
    omega
  rw [hexp]
  push_cast
  ring

theorem IsDouble.roundsWell_add {q r : Rat} (h : IsDouble q) (h' : IsDouble r) :
    RoundsWell (q + r) := by
  obtain ⟨m, rfl⟩ := h.exists_multiple
  obtain ⟨n, rfl⟩ := h'.exists_multiple
  refine .inr ⟨m + n, ?_⟩
  push_cast
  ring

theorem IsDouble.roundsWell_natCast_mul {q : Rat} (h : IsDouble q) (k : Nat) :
    RoundsWell (k * q) := by
  obtain ⟨m, rfl⟩ := h.exists_multiple
  refine .inr ⟨k * m, ?_⟩
  push_cast
  ring

namespace Nearest

variable {q r : Rat}

theorem abs_sub_le (h : Nearest q r) (hq : RoundsWell q) : |r - q| ≤ roundoff * |q| := by
  by_cases hlarge : 2 ^ (-1022 : Int) ≤ |q|
  · rcases le_total 0 q with hpos | hneg
    · rw [abs_of_nonneg hpos] at hlarge ⊢
      obtain ⟨d, hd, hnear⟩ := exists_isDouble_near hlarge
      exact (h.abs_sub_le_abs_sub d hd).trans hnear
    · rw [abs_of_nonpos hneg] at hlarge ⊢
      obtain ⟨d, hd, hnear⟩ := exists_isDouble_near hlarge
      have hmirror := h.neg.abs_sub_le_abs_sub d hd
      rw [show -r - -q = -(r - q) by ring, abs_neg] at hmirror
      exact hmirror.trans hnear
  · obtain ⟨n, rfl⟩ := hq.resolve_left hlarge
    have hn : |n| < 2 ^ 53 := by
      have hsplit : (2 : Rat) ^ (-1022 : Int) = 2 ^ 52 * least := by
        rw [least, ← zpow_natCast, ← zpow_add₀ two_ne_zero]
        rfl
      rw [hsplit, abs_mul, abs_of_pos least_pos, not_le,
        mul_lt_mul_iff_left₀ least_pos] at hlarge
      have hint : |n| < 2 ^ 52 := by exact_mod_cast hlarge
      exact hint.trans (by norm_num)
    rw [h.eq_of_isDouble ⟨n, -1074, hn, le_rfl, rfl⟩, sub_self, abs_zero, roundoff]
    positivity

/-- The relative error on either side. -/
theorem bounds (h : Nearest q r) (hq : RoundsWell q) :
    q - roundoff * |q| ≤ r ∧ r ≤ q + roundoff * |q| := by
  obtain ⟨hlow, hhigh⟩ := abs_le.1 (h.abs_sub_le hq)
  constructor <;> linarith

theorem bounds_of_nonneg (h : Nearest q r) (hq : RoundsWell q) (hnonneg : 0 ≤ q) :
    (1 - roundoff) * q ≤ r ∧ r ≤ (1 + roundoff) * q := by
  obtain ⟨hlow, hhigh⟩ := h.bounds hq
  rw [abs_of_nonneg hnonneg] at hlow hhigh
  constructor <;> linarith

end Nearest

end PulseNoise.Number
