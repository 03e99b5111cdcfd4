import PulseNoise.Proofs.WordRange
import Mathlib.Algebra.Order.Field.Power
import Mathlib.Algebra.Order.Ring.Rat
import Mathlib.Tactic.GCongr
import Mathlib.Tactic.Linarith
import Mathlib.Tactic.NormNum
import Mathlib.Tactic.Positivity
import Mathlib.Tactic.Ring

/-!
# Doubles as rational numbers

Two doubles are compared by their signs, then by their exponents and only then by their mantissas.
That is the order of the rational numbers that they stand for, because a double has one form only:
its mantissa uses all bits, unless its exponent is the least one.

* `value` is the rational number of a double.
* `Canonical` describes that form, `isRounded_unpack` says that finite doubles have it.
* `lt_iff_value_lt`, `le_iff_value_le` and `beq_iff_value_eq` turn comparisons of finite doubles
  into comparisons of rational numbers.
-/

namespace PulseNoise.Number

open Float.Model Float.Model.UnpackedFloat

/-! ## Mantissas and exponents -/

/-- A mantissa and an exponent as doubles have them. The mantissa may have fewer than 53 bits when
the exponent is the least one. -/
structure Canonical (m : Nat) (e : Int) : Prop where
  lt : m < 2 ^ 53
  least_le : -1074 ≤ e
  full : 2 ^ 52 ≤ m ∨ e = -1074

section Canonical

variable {m n : Nat} {e f : Int}

/-- The double with the greater exponent is greater, since its mantissa has to be full. -/
theorem Canonical.mul_lt (h : Canonical m e) (h' : Canonical n f) (hlt : e < f) :
    (m : Rat) * 2 ^ e < n * 2 ^ f := by
  have hfull : 2 ^ 52 ≤ n := h'.full.resolve_right (by have := h.least_le; omega)
  have hm : (m : Rat) < 2 ^ 53 := by exact_mod_cast h.lt
  have hn : (2 : Rat) ^ 52 ≤ n := by exact_mod_cast hfull
  calc (m : Rat) * 2 ^ e < 2 ^ 53 * 2 ^ e := by gcongr
    _ = 2 ^ 52 * 2 ^ (e + 1) := by
      rw [zpow_add_one₀ two_ne_zero]
      ring
    _ ≤ n * 2 ^ f := by
      gcongr
      · norm_num
      · omega

/-- Exponents first and mantissas after them is the order of the numbers. -/
theorem Canonical.compare_eq (h : Canonical m e) (h' : Canonical n f) :
    (compare e f).then (compare m n) = compare ((m : Rat) * 2 ^ e) (n * 2 ^ f) := by
  rcases lt_trichotomy e f with hlt | rfl | hgt
  · rw [compare_lt_iff_lt.2 hlt, compare_lt_iff_lt.2 (h.mul_lt h' hlt)]
    rfl
  · have hpos : (0 : Rat) < 2 ^ e := by positivity
    rw [compare_eq_iff_eq.2 rfl]
    change compare m n = _
    rcases lt_trichotomy m n with hlt | rfl | hgt
    · have hmul : (m : Rat) * 2 ^ e < n * 2 ^ e := by gcongr
      rw [compare_lt_iff_lt.2 hlt, compare_lt_iff_lt.2 hmul]
    · rw [compare_eq_iff_eq.2 rfl, compare_eq_iff_eq.2 rfl]
    · have hmul : (n : Rat) * 2 ^ e < m * 2 ^ e := by gcongr
      rw [compare_gt_iff_gt.2 hgt, compare_gt_iff_gt.2 hmul]
  · rw [compare_gt_iff_gt.2 hgt, compare_gt_iff_gt.2 (h'.mul_lt h hgt)]
    rfl

end Canonical

/-! ## Values -/

/-- The number that an unpacked double stands for; what is not finite stands for zero. -/
def unpackedValue : UnpackedFloat → Rat
  | .finite s m e _ => s.apply m * 2 ^ e
  | .zero _ | .infinity _ | .notANumber => 0

/-- The number that a finite double stands for. -/
def value (x : Float) : Rat := unpackedValue x.toModel.unpack

theorem unpackedValue_positive {m : Nat} {e : Int} (hm : 0 < m) :
    unpackedValue (.finite .positive m e hm) = m * 2 ^ e := rfl

theorem unpackedValue_negative {m : Nat} {e : Int} (hm : 0 < m) :
    unpackedValue (.finite .negative m e hm) = -(m * 2 ^ e) := by
  change ((-(m : Int) : Int) : Rat) * 2 ^ e = _
  rw [Int.cast_neg, Int.cast_natCast, neg_mul]

/-- A zero or a double in canonical form; the exponent may be too large for a double. -/
def IsRounded : UnpackedFloat → Prop
  | .zero _ => True
  | .finite _ m e _ => Canonical m e
  | .infinity _ | .notANumber => False

/-- Finite bits unpack to canonical form, with an exponent that a double can have. -/
theorem isRounded_and_fits_unpackBits {b : BitVec Format.binary64.numBits}
    (h : (UnpackedFloat.unpack Format.binary64 b).isFinite = true) :
    IsRounded (UnpackedFloat.unpack Format.binary64 b) ∧
      Fits 971 (UnpackedFloat.unpack Format.binary64 b) := by
  unfold UnpackedFloat.unpack at *
  dsimp only at *
  by_cases hspecial : UnpackedFloat.unpackExponent b = -1#_
  · rw [if_pos hspecial] at h
    split at h <;> cases h
  rw [if_neg hspecial, bias_eq]
  by_cases hexponent : UnpackedFloat.unpackExponent b = 0#_
  · rw [if_pos hexponent]
    by_cases hmantissa : UnpackedFloat.unpackMantissa b = 0#_
    · rw [dif_pos hmantissa]
      exact ⟨trivial, trivial⟩
    · rw [dif_neg hmantissa, hexponent]
      have hlt : (UnpackedFloat.unpackMantissa b).toNat < 2 ^ 53 :=
        Nat.lt_of_lt_of_le (UnpackedFloat.unpackMantissa b).isLt (by decide)
      exact ⟨⟨hlt, by decide, .inr rfl⟩, hlt, by decide⟩
  · rw [if_neg hexponent]
    have hlt : (1#1 ++ UnpackedFloat.unpackMantissa b).toNat < 2 ^ 53 :=
      (1#1 ++ UnpackedFloat.unpackMantissa b).isLt
    have hfull : 2 ^ 52 ≤ (1#1 ++ UnpackedFloat.unpackMantissa b).toNat := by
      rw [BitVec.toNat_append]
      exact Nat.left_le_or
    have hpos : (UnpackedFloat.unpackExponent b).toNat ≠ 0 := by
      intro hzero
      exact hexponent (BitVec.eq_of_toNat_eq hzero)
    have hones : (UnpackedFloat.unpackExponent b).toNat ≠ 2047 := by
      intro hmax
      exact hspecial (BitVec.eq_of_toNat_eq hmax)
    have hwidth : (UnpackedFloat.unpackExponent b).toNat < 2048 :=
      (UnpackedFloat.unpackExponent b).isLt
    exact ⟨⟨hlt, by omega, .inl hfull⟩, hlt, by omega⟩

variable {x y : Float}

theorem isRounded_unpack (h : x.isFinite = true) : IsRounded x.toModel.unpack :=
  (isRounded_and_fits_unpackBits h).1

theorem fits_unpack_of_isFinite (h : x.isFinite = true) : Fits 971 x.toModel.unpack :=
  (isRounded_and_fits_unpackBits h).2

/-! ## Comparisons -/

theorem compare_neg_neg (a b : Rat) : compare (-a) (-b) = (compare a b).swap := by
  rcases lt_trichotomy a b with hlt | rfl | hgt
  · rw [compare_lt_iff_lt.2 hlt, compare_gt_iff_gt.2 (neg_lt_neg hlt)]
    rfl
  · rw [compare_eq_iff_eq.2 rfl, compare_eq_iff_eq.2 rfl]
    rfl
  · rw [compare_gt_iff_gt.2 hgt, compare_lt_iff_lt.2 (neg_lt_neg hgt)]
    rfl

/-- Doubles in canonical form compare as their values. -/
theorem compare_unpacked {f g : UnpackedFloat} (hf : IsRounded f) (hg : IsRounded g) :
    f.compare g = some (compare (unpackedValue f) (unpackedValue g)) := by
  have hpos {m : Nat} {e : Int} (hm : 0 < m) : (0 : Rat) < m * 2 ^ e := by positivity
  match f, g, hf, hg with
  | .zero _, .zero _, _, _ => exact congrArg some (compare_eq_iff_eq.2 rfl).symm
  | .zero _, .finite .positive m e hm, _, _ =>
    exact congrArg some (compare_lt_iff_lt.2 (hpos hm)).symm
  | .zero _, .finite .negative m e hm, _, _ =>
    rw [unpackedValue_negative]
    exact congrArg some (compare_gt_iff_gt.2 (neg_neg_of_pos (hpos hm))).symm
  | .finite .positive m e hm, .zero _, _, _ =>
    exact congrArg some (compare_gt_iff_gt.2 (hpos hm)).symm
  | .finite .negative m e hm, .zero _, _, _ =>
    rw [unpackedValue_negative]
    exact congrArg some (compare_lt_iff_lt.2 (neg_neg_of_pos (hpos hm))).symm
  | .finite .positive m e hm, .finite .positive n f hn, hf, hg =>
    exact congrArg some (hf.compare_eq hg)
  | .finite .negative m e hm, .finite .negative n f hn, hf, hg =>
    rw [unpackedValue_negative, unpackedValue_negative, compare_neg_neg, ← hf.compare_eq hg]
    rfl
  | .finite .positive m e hm, .finite .negative n f hn, _, _ =>
    rw [unpackedValue_negative]
    have hlt : -(n * 2 ^ f : Rat) < m * 2 ^ e := (neg_neg_of_pos (hpos hn)).trans (hpos hm)
    exact congrArg some (compare_gt_iff_gt.2 hlt).symm
  | .finite .negative m e hm, .finite .positive n f hn, _, _ =>
    rw [unpackedValue_negative]
    have hlt : -(m * 2 ^ e : Rat) < n * 2 ^ f := (neg_neg_of_pos (hpos hm)).trans (hpos hn)
    exact congrArg some (compare_lt_iff_lt.2 hlt).symm

/-- What is finite lies between the infinities. -/
theorem compare_infinity {f : UnpackedFloat} (hf : f.isFinite = true) :
    f.compare (.infinity .positive) = some .lt ∧
      UnpackedFloat.compare (.infinity .negative) f = some .lt := by
  cases f with
  | zero s => exact ⟨rfl, rfl⟩
  | finite s m e hm => cases s <;> exact ⟨rfl, rfl⟩
  | infinity s => cases hf
  | notANumber => cases hf

theorem compare_unpack (hx : x.isFinite = true) (hy : y.isFinite = true) :
    x.toModel.unpack.compare y.toModel.unpack = some (compare (value x) (value y)) :=
  compare_unpacked (isRounded_unpack hx) (isRounded_unpack hy)

/-- The order on any doubles, as it is decided. -/
theorem lt_iff_compare : x < y ↔ x.toModel.unpack.compare y.toModel.unpack = some .lt := by
  change decide (x.toModel < y.toModel) = true ↔ _
  rw [decide_eq_true_iff]
  exact beq_iff_eq

theorem le_iff_compare :
    x ≤ y ↔ (x.toModel.unpack.compare y.toModel.unpack).any (·.isLE) = true := by
  change decide (x.toModel ≤ y.toModel) = true ↔ _
  rw [decide_eq_true_iff]
  rfl

theorem beq_iff_compare :
    (x == y) = true ↔ x.toModel.unpack.compare y.toModel.unpack = some .eq := by
  change (x.toModel.unpack.compare y.toModel.unpack == some .eq) = true ↔ _
  exact beq_iff_eq

theorem lt_iff_value_lt (hx : x.isFinite = true) (hy : y.isFinite = true) :
    x < y ↔ value x < value y := by
  rw [lt_iff_compare, compare_unpack hx hy, Option.some.injEq, compare_lt_iff_lt]

theorem le_iff_value_le (hx : x.isFinite = true) (hy : y.isFinite = true) :
    x ≤ y ↔ value x ≤ value y := by
  rw [le_iff_compare, compare_unpack hx hy, Option.any_some, Ordering.isLE_iff_ne_gt]
  exact compare_le_iff_le

theorem beq_iff_value_eq (hx : x.isFinite = true) (hy : y.isFinite = true) :
    (x == y) = true ↔ value x = value y := by
  rw [beq_iff_compare, compare_unpack hx hy, Option.some.injEq, compare_eq_iff_eq]

end PulseNoise.Number
