import PulseNoise.Number.Order
import PulseNoise.Proofs.Rounding

/-!
# Arithmetic of doubles

Sums, differences, products and quotients of doubles are the nearest doubles of those of the
values, or infinities when these are out of range.

* `RoundsTo q z` says that the double `z` is what the number `q` is rounded to.
* `RoundsTo.le_of_le` and `RoundsTo.le_of_lt` compare results of rounding.
* `roundsTo_add`, `roundsTo_sub`, `roundsTo_mul` and `roundsTo_div` are the operations,
  `roundsTo_ofCount` and `toNat_toUInt64` the conversions from and to counts.
-/

namespace PulseNoise.Number

open Float.Model Float.Model.UnpackedFloat

/-! ## Results of rounding -/

/-- The least power of two that no finite double reaches. -/
def limit : Rat := 2 ^ (1024 : Int)

theorem limit_pos : 0 < limit := by
  unfold limit
  positivity

/-- A double that a number is rounded to: a nearest one, or an infinity when that is out of
range. -/
inductive RoundsTo (q : Rat) (z : Float) : Prop
  | finite (hz : z.isFinite = true) (h : Nearest q (value z))
  | above {r : Rat} (h : Nearest q r) (hr : limit ≤ r)
      (hz : z.toModel.unpack = .infinity .positive)
  | below {r : Rat} (h : Nearest q r) (hr : r ≤ -limit)
      (hz : z.toModel.unpack = .infinity .negative)

section Value

variable {x y z : Float} {q q' : Rat}

theorem abs_unpackedValue {s : Sign} {m : Nat} {e : Int} (hm : 0 < m) :
    |unpackedValue (.finite s m e hm)| = m * 2 ^ e := by
  have hpos : (0 : Rat) < m * 2 ^ e := by positivity
  cases s with
  | negative => rw [unpackedValue_negative, abs_neg, abs_of_pos hpos]
  | positive => rw [unpackedValue_positive, abs_of_pos hpos]

theorem IsRounded.isDouble {f : UnpackedFloat} (h : IsRounded f) : IsDouble (unpackedValue f) := by
  cases f with
  | infinity s | notANumber => cases h
  | zero s => exact .zero
  | finite s m e hm =>
    have hlt : (m : Int) < 2 ^ 53 := by exact_mod_cast h.lt
    refine ⟨s.apply m, e, ?_, h.least_le, rfl⟩
    cases s <;> simpa [Sign.apply] using hlt

theorem isDouble_value (h : x.isFinite = true) : IsDouble (value x) :=
  (isRounded_unpack h).isDouble

/-- A finite double is in range. -/
theorem abs_value_lt (h : x.isFinite = true) : |value x| < limit := by
  have hfits := fits_unpack_of_isFinite h
  unfold value
  cases hx : x.toModel.unpack with
  | zero s | infinity s | notANumber =>
    change |(0 : Rat)| < limit
    rw [abs_zero]
    exact limit_pos
  | finite s m e hm =>
    rw [hx] at hfits
    obtain ⟨hlt, he⟩ := hfits
    have hmq : (m : Rat) < 2 ^ 53 := by exact_mod_cast hlt
    rw [abs_unpackedValue]
    calc (m : Rat) * 2 ^ e < 2 ^ 53 * 2 ^ e := by gcongr
      _ ≤ 2 ^ (53 : Nat) * 2 ^ (971 : Int) := by
        gcongr
        norm_num
      _ = limit := by
        rw [← zpow_natCast, ← zpow_add₀ two_ne_zero]
        rfl

/-- Packing a nearest double in canonical form gives what the number is rounded to. -/
theorem roundsTo_pack {f : UnpackedFloat} (hf : IsRounded f) (h : Nearest q (unpackedValue f)) :
    RoundsTo q (.ofModel (.pack f)) := by
  have hfinite (hfits : Fits 971 f) : RoundsTo q (.ofModel (.pack f)) := by
    have hunpack : (Float.ofModel (.pack f)).toModel.unpack = f := unpack_pack hf hfits
    refine .finite (isFinite_of_fits (k := 971) ?_) ?_
    · rwa [hunpack]
    · rwa [value, hunpack]
  cases f with
  | infinity s | notANumber => cases hf
  | zero s => exact hfinite trivial
  | finite s m e hm =>
    by_cases he : e ≤ 971
    · exact hfinite ⟨hf.lt, he⟩
    · have hfull : 2 ^ 52 ≤ m := hf.full.resolve_right (by omega)
      have hlarge : limit ≤ m * 2 ^ e := by
        have hmq : (2 : Rat) ^ (52 : Nat) ≤ m := by exact_mod_cast hfull
        calc limit = (2 : Rat) ^ (52 : Nat) * 2 ^ (972 : Int) := by
              rw [← zpow_natCast, ← zpow_add₀ two_ne_zero]
              rfl
          _ ≤ m * 2 ^ e := by
            gcongr
            · norm_num
            · omega
      have hunpack : (Float.ofModel (.pack (.finite s m e hm))).toModel.unpack = .infinity s :=
        unpack_pack_overflow s hm (not_le.1 he)
      cases s with
      | negative =>
        rw [unpackedValue_negative] at h
        exact .below h (neg_le_neg hlarge) hunpack
      | positive => exact .above h hlarge hunpack

namespace RoundsTo

/-- A finite result is a nearest double. -/
theorem nearest (h : RoundsTo q z) (hz : z.isFinite = true) : Nearest q (value z) := by
  change z.toModel.unpack.isFinite = true at hz
  cases h with
  | finite _ h => exact h
  | above h hr hinfinite | below h hr hinfinite =>
    rw [hinfinite] at hz
    cases hz

theorem le_of_le (h : RoundsTo q z) (hy : y.isFinite = true) (hle : q ≤ value y) : z ≤ y := by
  have hrange := abs_lt.1 (abs_value_lt hy)
  cases h with
  | finite hz h => exact (le_iff_value_le hz hy).2 (h.le_of_le (isDouble_value hy) hle)
  | above h hr hz =>
    have := h.le_of_le (isDouble_value hy) hle
    linarith
  | below h hr hz =>
    rw [le_iff_compare, hz, (compare_infinity hy).2]
    rfl

/-- A result between two finite doubles is finite. -/
theorem isFinite (h : RoundsTo q z) (hx : x.isFinite = true) (hy : y.isFinite = true)
    (hlo : value x ≤ q) (hhi : q ≤ value y) : z.isFinite = true := by
  have hlow := abs_lt.1 (abs_value_lt hx)
  have hhigh := abs_lt.1 (abs_value_lt hy)
  cases h with
  | finite hz h => exact hz
  | above h hr hz =>
    have := h.le_of_le (isDouble_value hy) hhi
    linarith
  | below h hr hz =>
    have := h.ge_of_ge (isDouble_value hx) hlo
    linarith

/-- Nothing that a number is rounded to is above the infinity. -/
theorem le_infinity (h : RoundsTo q z) (hy : y.toModel.unpack = .infinity .positive) : z ≤ y := by
  rw [le_iff_compare, hy]
  cases h with
  | finite hz h =>
    rw [(compare_infinity hz).1]
    rfl
  | above h hr hz | below h hr hz =>
    rw [hz]
    rfl

/-- Rounding keeps the order, infinities included. -/
theorem le_of_lt {z' : Float} (h : RoundsTo q z) (h' : RoundsTo q' z') (hlt : q < q') : z ≤ z' := by
  cases h with
  | finite hz h =>
    have hrange := abs_lt.1 (abs_value_lt hz)
    cases h' with
    | finite hz' h' => exact (le_iff_value_le hz hz').2 (h.le_of_lt h' hlt)
    | above h' hr' hz' =>
      rw [le_iff_compare, hz', (compare_infinity hz).1]
      rfl
    | below h' hr' hz' =>
      have := h.le_of_lt h' hlt
      linarith
  | above h hr hz =>
    cases h' with
    | finite hz' h' =>
      have := h.le_of_lt h' hlt
      have := abs_lt.1 (abs_value_lt hz')
      linarith
    | above h' hr' hz' =>
      rw [le_iff_compare, hz, hz']
      rfl
    | below h' hr' hz' =>
      have := h.le_of_lt h' hlt
      have := limit_pos
      linarith
  | below h hr hz =>
    rw [le_iff_compare, hz]
    cases h' with
    | finite hz' h' =>
      rw [(compare_infinity hz').2]
      rfl
    | above h' hr' hz' | below h' hr' hz' =>
      rw [hz']
      rfl

end RoundsTo

end Value

/-! ## Operations on unpacked doubles -/

section Unpacked

variable {f g : UnpackedFloat}

theorem IsDouble.nearest {q : Rat} (h : IsDouble q) : Nearest q q := by
  refine ⟨h, fun d _ => ?_⟩
  rw [sub_self, abs_zero]
  exact abs_nonneg _

theorem unpackedValue_finite (s : Sign) {m : Nat} {e : Int} (hm : 0 < m) :
    unpackedValue (.finite s m e hm) = s.apply 1 * (m * 2 ^ e) := apply_mul s m _

/-- Lowering an exponent to make room does not change the number. -/
theorem decreaseExponent_mul (m : Nat) (e t : Int) :
    ((decreaseExponent m e t).1 : Rat) * 2 ^ (decreaseExponent m e t).2 = m * 2 ^ e := by
  change ((m <<< (e - t).toNat : Nat) : Rat) * 2 ^ (e - (e - t).toNat) = _
  rw [Nat.shiftLeft_eq, zpow_sub₀ two_ne_zero, zpow_natCast]
  push_cast
  field_simp

theorem log2_shiftLeft {m : Nat} (hm : 0 < m) (k : Nat) : (m <<< k).log2 = m.log2 + k := by
  have hpos : 0 < 2 ^ k := by positivity
  rw [Nat.shiftLeft_eq, Nat.log2_eq_iff (Nat.mul_pos hm hpos).ne', Nat.add_right_comm, pow_add,
    pow_add]
  exact ⟨Nat.mul_le_mul_right _ (Nat.log2_self_le hm.ne'),
    Nat.mul_lt_mul_of_pos_right Nat.lt_log2_self hpos⟩

theorem nearest_round (s : Sign) {m : Nat} (e : Int) (hm : 0 < m) :
    IsRounded (round Format.binary64 s m e) ∧
      Nearest (s.apply 1 * (m * 2 ^ e)) (unpackedValue (round Format.binary64 s m e)) := by
  rw [← decreaseExponent_mul m e (Format.binary64.targetExponent (totalExponent m e))]
  refine nearest_roundWithAccuracy s (y := _) rfl ?_
  -- making room leaves the total exponent as it is
  generalize hk : (e - Format.binary64.targetExponent (totalExponent m e)).toNat = k
  rw [targetExponent_eq, totalExponent] at hk
  rw [targetExponent_eq, totalExponent, log2_shiftLeft hm]
  omega

theorem nearest_normalize (m e : Int) (s : Sign) :
    IsRounded (UnpackedFloat.normalize Format.binary64 m e s) ∧
      Nearest (m * 2 ^ e) (unpackedValue (UnpackedFloat.normalize Format.binary64 m e s)) := by
  unfold UnpackedFloat.normalize
  rcases lt_trichotomy m 0 with hneg | rfl | hpos
  · rw [Int.compare_eq_lt.2 hneg]
    have hround := nearest_round .negative (m := (-m).toNat) e (by omega)
    have hcast : ((-m).toNat : Int) = -m := by omega
    have hvalue : (Sign.negative.apply 1 : Rat) * ((-m).toNat * 2 ^ e) = m * 2 ^ e := by
      rw [← Int.cast_natCast, hcast]
      simp [Sign.apply]
    rwa [hvalue] at hround
  · rw [Int.cast_zero, zero_mul]
    exact ⟨trivial, IsDouble.zero.nearest⟩
  · rw [Int.compare_eq_gt.2 hpos]
    have hround := nearest_round .positive (m := m.toNat) e (by omega)
    have hcast : (m.toNat : Int) = m := by omega
    have hvalue : (Sign.positive.apply 1 : Rat) * (m.toNat * 2 ^ e) = m * 2 ^ e := by
      rw [← Int.cast_natCast, hcast]
      simp [Sign.apply]
    rwa [hvalue] at hround

/-- Mantissas brought to a common exponent below both. -/
theorem decreaseExponent_of_le {m : Nat} {e t : Int} (h : t ≤ e) (s : Sign) :
    (s.apply (decreaseExponent m e t).1 : Rat) * 2 ^ t = s.apply m * 2 ^ e := by
  have hsnd : (decreaseExponent m e t).2 = t := by
    change e - ((e - t).toNat : Int) = t
    omega
  have hmul := decreaseExponent_mul m e t
  rw [hsnd] at hmul
  rw [apply_mul, hmul, ← apply_mul]

theorem nearest_add (hf : IsRounded f) (hg : IsRounded g) :
    IsRounded (UnpackedFloat.add Format.binary64 f g) ∧
      Nearest (unpackedValue f + unpackedValue g)
        (unpackedValue (UnpackedFloat.add Format.binary64 f g)) := by
  match f, g, hf, hg with
  | .zero s, .zero s', _, _ =>
    rw [show unpackedValue (.zero s) + unpackedValue (.zero s') = 0 from add_zero 0]
    cases s <;> cases s' <;> exact ⟨trivial, IsDouble.zero.nearest⟩
  | .zero s, .finite s' m e hm, _, hg =>
    rw [show unpackedValue (.zero s) = 0 from rfl, zero_add]
    exact ⟨hg, (IsRounded.isDouble (f := .finite s' m e hm) hg).nearest⟩
  | .finite s m e hm, .zero s', hf, _ =>
    rw [show unpackedValue (.zero s') = 0 from rfl, add_zero]
    exact ⟨hf, (IsRounded.isDouble (f := .finite s m e hm) hf).nearest⟩
  | .finite s m e hm, .finite s' m' e' hm', _, _ =>
    have hround := nearest_normalize (s.apply (decreaseExponent m e (min e e')).1 +
      s'.apply (decreaseExponent m' e' (min e e')).1) (min e e') .positive
    push_cast at hround
    rw [add_mul, decreaseExponent_of_le (min_le_left e e'),
      decreaseExponent_of_le (min_le_right e e')] at hround
    exact hround

theorem apply_neg (s : Sign) (m : Int) : (-s).apply m = -s.apply m := by
  cases s with
  | negative => exact (neg_neg m).symm
  | positive => rfl

theorem IsRounded.neg (h : IsRounded f) : IsRounded f.neg := by
  cases f with
  | infinity s | notANumber => cases h
  | zero s | finite s m e hm => exact h

theorem unpackedValue_neg (f : UnpackedFloat) : unpackedValue f.neg = -unpackedValue f := by
  cases f with
  | infinity s | notANumber | zero s => exact neg_zero.symm
  | finite s m e hm =>
    change (((-s).apply m : Int) : Rat) * 2 ^ e = -((s.apply m : Int) * 2 ^ e)
    rw [apply_neg, Int.cast_neg, neg_mul]

/-- A difference is a sum with the sign of the second double changed. -/
theorem sub_eq_add (f g : UnpackedFloat) :
    UnpackedFloat.sub Format.binary64 f g = UnpackedFloat.add Format.binary64 f g.neg := by
  match f, g with
  | .finite s m e hm, .finite s' m' e' hm' =>
    change UnpackedFloat.normalize Format.binary64 (s.apply (decreaseExponent m e (min e e')).1 -
      s'.apply (decreaseExponent m' e' (min e e')).1) (min e e') .positive = _
    rw [sub_eq_add_neg, ← apply_neg]
    rfl
  | .notANumber, g | .infinity s, g | .zero s, g => cases g <;> rfl
  | .finite s m e hm, .notANumber | .finite s m e hm, .infinity s' | .finite s m e hm, .zero s' =>
    rfl

theorem nearest_sub (hf : IsRounded f) (hg : IsRounded g) :
    IsRounded (UnpackedFloat.sub Format.binary64 f g) ∧
      Nearest (unpackedValue f - unpackedValue g)
        (unpackedValue (UnpackedFloat.sub Format.binary64 f g)) := by
  rw [sub_eq_add, sub_eq_add_neg, ← unpackedValue_neg]
  exact nearest_add hf hg.neg

theorem apply_one_mul (s s' : Sign) :
    ((s * s').apply 1 : Rat) = s.apply 1 * s'.apply 1 := by
  have hint : (s * s').apply 1 = s.apply 1 * s'.apply 1 := by cases s <;> cases s' <;> rfl
  rw [hint, Int.cast_mul]

theorem apply_one_div (s s' : Sign) :
    ((s / s').apply 1 : Rat) = s.apply 1 / s'.apply 1 := by
  have hsame : s / s' = s * s' := by cases s <;> cases s' <;> rfl
  rw [hsame, apply_one_mul]
  cases s <;> cases s' <;> simp [Sign.apply]

/-- The product of two mantissas has 53 bits unless both are short. -/
theorem Canonical.mul_fits {m m' : Nat} {e e' : Int} (h : Canonical m e) (h' : Canonical m' e')
    (hm : 0 < m) (hm' : 0 < m') :
    e + e' ≤ Format.binary64.targetExponent (totalExponent (m * m') (e + e')) := by
  rw [targetExponent_eq, totalExponent]
  have hlog (hfull : 2 ^ 52 ≤ m * m') : 52 ≤ (m * m').log2 :=
    (Nat.le_log2 (Nat.mul_pos hm hm').ne').2 hfull
  rcases h.full with hfull | hleast
  · have := hlog (hfull.trans (Nat.le_mul_of_pos_right m hm'))
    omega
  · rcases h'.full with hfull | hleast'
    · have := hlog (hfull.trans (Nat.le_mul_of_pos_left m' hm))
      omega
    · omega

theorem nearest_mul (hf : IsRounded f) (hg : IsRounded g) :
    IsRounded (UnpackedFloat.mul Format.binary64 f g) ∧
      Nearest (unpackedValue f * unpackedValue g)
        (unpackedValue (UnpackedFloat.mul Format.binary64 f g)) := by
  match f, g, hf, hg with
  | .zero s, .zero s', _, _ | .zero s, .finite s' m e hm, _, _ =>
    rw [show unpackedValue (.zero s) = 0 from rfl, zero_mul]
    exact ⟨trivial, IsDouble.zero.nearest⟩
  | .finite s m e hm, .zero s', _, _ =>
    rw [show unpackedValue (.zero s') = 0 from rfl, mul_zero]
    exact ⟨trivial, IsDouble.zero.nearest⟩
  | .finite s m e hm, .finite s' m' e' hm', hf, hg =>
    have hplaces : Places (.ofMantissaAndAccuracy (m * m') .exact) ((m * m' : Nat) : Rat) := rfl
    have hround := nearest_roundWithAccuracy (s * s') hplaces (hf.mul_fits hg hm hm')
    have hvalue : ((s * s').apply 1 : Rat) * ((m * m' : Nat) * 2 ^ (e + e')) =
        unpackedValue (.finite s m e hm) * unpackedValue (.finite s' m' e' hm') := by
      rw [apply_one_mul, unpackedValue_finite, unpackedValue_finite, zpow_add₀ two_ne_zero]
      push_cast
      ring
    rw [← hvalue]
    exact hround

/-- The remainder of a division tells where the quotient lies. -/
theorem places_div (m : Nat) {d : Nat} (hd : 0 < d) :
    Places (.ofMantissaAndAccuracy (m / d) (accuracyOfFraction (m % d) d)) ((m : Rat) / d) := by
  have hpos : (0 : Rat) < d := by exact_mod_cast hd
  have hquotient : (m : Rat) / d = (m / d : Nat) + (m % d : Nat) / d := by
    have hsplit : (m : Rat) = d * (m / d : Nat) + (m % d : Nat) := by
      exact_mod_cast (Nat.div_add_mod m d).symm
    conv_lhs => rw [hsplit]
    field_simp
  rw [hquotient]
  unfold accuracyOfFraction
  by_cases hzero : m % d = 0
  · rw [if_pos hzero, hzero]
    change _ = ((m / d : Nat) : Rat)
    rw [Nat.cast_zero, zero_div, add_zero]
  · rw [if_neg hzero]
    have hone : ((m % d : Nat) : Rat) / d < 1 := by
      rw [div_lt_one hpos]
      exact_mod_cast Nat.mod_lt m hd
    have hrest : (0 : Rat) < (m % d : Nat) / d := by
      have : (0 : Rat) < (m % d : Nat) := by exact_mod_cast Nat.pos_of_ne_zero hzero
      positivity
    rcases lt_trichotomy (2 * (m % d)) d with hlt | heq | hgt
    · have hhalf : ((m % d : Nat) : Rat) / d < 1 / 2 := by
        have : (2 : Rat) * (m % d : Nat) < d := by exact_mod_cast hlt
        rw [div_lt_iff₀ hpos]
        linarith
      rw [Nat.compare_eq_lt.2 hlt]
      change ((m / d : Nat) : Rat) < _ ∧ _ < ((m / d : Nat) : Rat) + 1 / 2
      constructor <;> linarith
    · have hhalf : ((m % d : Nat) : Rat) / d = 1 / 2 := by
        have : (2 : Rat) * (m % d : Nat) = d := by exact_mod_cast heq
        rw [div_eq_iff hpos.ne']
        linarith
      rw [Nat.compare_eq_eq.2 heq, hhalf]
      rfl
    · have hhalf : 1 / 2 < ((m % d : Nat) : Rat) / d := by
        have : (d : Rat) < 2 * (m % d : Nat) := by exact_mod_cast hgt
        rw [lt_div_iff₀ hpos]
        linarith
      rw [Nat.compare_eq_gt.2 hgt]
      change ((m / d : Nat) : Rat) + 1 / 2 < _ ∧ _ < ((m / d : Nat) : Rat) + 1
      constructor <;> linarith

/-- The quotient has as many bits as rounding needs. -/
theorem div_fits {m m' : Nat} {e e' : Int} (hm : 0 < m) (hm' : 0 < m') :
    (divCore Format.binary64 m e m' e').2.1 ≤ Format.binary64.targetExponent
      (totalExponent (divCore Format.binary64 m e m' e').1
        (divCore Format.binary64 m e m' e').2.1) := by
  unfold divCore
  dsimp only
  generalize ht : min (e - e')
    (Format.binary64.targetExponent (totalExponent m e - totalExponent m' e')) = t
  rw [targetExponent_eq, totalExponent, totalExponent] at ht
  rw [targetExponent_eq, totalExponent]
  by_cases hleast : t ≤ -1074
  · exact le_max_of_le_right hleast
  · obtain ⟨k, hk⟩ : ∃ k, (e - e' - t).toNat = k := ⟨_, rfl⟩
    have hbits : 52 + (m'.log2 + 1) ≤ m.log2 + k := by omega
    have hquotient : 2 ^ 52 ≤ (m <<< k) / m' := by
      rw [Nat.le_div_iff_mul_le hm', Nat.shiftLeft_eq]
      calc 2 ^ 52 * m' ≤ 2 ^ 52 * 2 ^ (m'.log2 + 1) :=
            Nat.mul_le_mul_left _ Nat.lt_log2_self.le
        _ = 2 ^ (52 + (m'.log2 + 1)) := (pow_add 2 52 _).symm
        _ ≤ 2 ^ (m.log2 + k) := Nat.pow_le_pow_right two_pos hbits
        _ = 2 ^ m.log2 * 2 ^ k := pow_add 2 _ _
        _ ≤ m * 2 ^ k := Nat.mul_le_mul_right _ (Nat.log2_self_le hm.ne')
    have hlog : 52 ≤ ((m <<< k) / m').log2 :=
      (Nat.le_log2 (by omega)).2 hquotient
    rw [hk]
    omega

theorem nearest_div (hf : IsRounded f) (hg : IsRounded g) (hzero : unpackedValue g ≠ 0) :
    IsRounded (UnpackedFloat.div Format.binary64 f g) ∧
      Nearest (unpackedValue f / unpackedValue g)
        (unpackedValue (UnpackedFloat.div Format.binary64 f g)) := by
  match f, g, hf, hg with
  | .zero s, .zero s', _, _ | .finite s m e hm, .zero s', _, _ => exact (hzero rfl).elim
  | .zero s, .finite s' m e hm, _, _ =>
    rw [show unpackedValue (.zero s) = 0 from rfl, zero_div]
    exact ⟨trivial, IsDouble.zero.nearest⟩
  | .finite s m e hm, .finite s' m' e' hm', _, _ =>
    obtain ⟨t, ht⟩ : ∃ t, min (e - e') (Format.binary64.targetExponent
      (totalExponent m e - totalExponent m' e')) = t := ⟨_, rfl⟩
    have hround := nearest_roundWithAccuracy (s / s')
      (places_div (m <<< (e - e' - t).toNat) hm') (by rw [← ht]; exact div_fits hm hm')
    have hshift : t + (e - e' - t).toNat = e - e' := by omega
    have hvalue : ((s / s').apply 1 : Rat) *
        ((m <<< (e - e' - t).toNat : Nat) / m' * 2 ^ t) =
        unpackedValue (.finite s m e hm) / unpackedValue (.finite s' m' e' hm') := by
      have hexp : (2 : Rat) ^ (e - e' - t).toNat * 2 ^ t = 2 ^ e / 2 ^ e' := by
        rw [← zpow_natCast, ← zpow_add₀ two_ne_zero, add_comm, hshift, zpow_sub₀ two_ne_zero]
      rw [apply_one_div, unpackedValue_finite, unpackedValue_finite, Nat.shiftLeft_eq,
        Nat.cast_mul, mul_div_right_comm, mul_assoc, Nat.cast_pow, Nat.cast_ofNat, hexp]
      ring
    rw [← hvalue]
    subst ht
    exact hround

end Unpacked

/-! ## Operations -/

section Operations

variable {x y z : Float} {q : Rat}

theorem roundsTo_add (hx : x.isFinite = true) (hy : y.isFinite = true) :
    RoundsTo (value x + value y) (x + y) := by
  obtain ⟨hshape, hnearest⟩ := nearest_add (isRounded_unpack hx) (isRounded_unpack hy)
  exact roundsTo_pack hshape hnearest

theorem roundsTo_sub (hx : x.isFinite = true) (hy : y.isFinite = true) :
    RoundsTo (value x - value y) (x - y) := by
  obtain ⟨hshape, hnearest⟩ := nearest_sub (isRounded_unpack hx) (isRounded_unpack hy)
  exact roundsTo_pack hshape hnearest

theorem roundsTo_mul (hx : x.isFinite = true) (hy : y.isFinite = true) :
    RoundsTo (value x * value y) (x * y) := by
  obtain ⟨hshape, hnearest⟩ := nearest_mul (isRounded_unpack hx) (isRounded_unpack hy)
  exact roundsTo_pack hshape hnearest

theorem roundsTo_div (hx : x.isFinite = true) (hy : y.isFinite = true) (hzero : value y ≠ 0) :
    RoundsTo (value x / value y) (x / y) := by
  obtain ⟨hshape, hnearest⟩ := nearest_div (isRounded_unpack hx) (isRounded_unpack hy) hzero
  exact roundsTo_pack hshape hnearest

/-- A double in range is its own rounding. -/
theorem RoundsTo.exact (h : RoundsTo q z) (hq : IsDouble q) (hrange : |q| < limit) :
    z.isFinite = true ∧ value z = q := by
  obtain ⟨hlow, hhigh⟩ := abs_lt.1 hrange
  cases h with
  | finite hz h => exact ⟨hz, h.eq_of_isDouble hq⟩
  | above h hr hz =>
    have := h.eq_of_isDouble hq
    linarith
  | below h hr hz =>
    have := h.eq_of_isDouble hq
    linarith

theorem roundsTo_ofCount {n : Nat} (hn : n < UInt64.size) : RoundsTo n (ofCount n) := by
  have hround := nearest_normalize n 0 .positive
  rw [zpow_zero, mul_one, Int.cast_natCast] at hround
  have hword : n.toUInt64.toNat = n := Nat.mod_eq_of_lt hn
  have hpack := roundsTo_pack hround.1 hround.2
  change RoundsTo n (.ofModel (.pack (UnpackedFloat.normalize Format.binary64
    (n.toUInt64.toNat : Int) 0 .positive)))
  rwa [hword]

/-- A count of at most 53 bits is a double. -/
theorem value_ofCount {n : Nat} (hn : n ≤ 2 ^ 53) :
    (ofCount n).isFinite = true ∧ value (ofCount n) = n := by
  have hbound : |(n : Int)| ≤ 2 ^ 53 := by
    rw [Nat.abs_cast]
    exact_mod_cast hn
  have hdouble := IsDouble.of_abs_le hbound (show (-1074 : Int) ≤ 0 by norm_num)
  rw [zpow_zero, mul_one, Int.cast_natCast] at hdouble
  refine (roundsTo_ofCount (hn.trans_lt (by decide))).exact hdouble ?_
  rw [Nat.abs_cast]
  calc (n : Rat) ≤ 2 ^ (53 : Int) := by exact_mod_cast hn
    _ < limit := zpow_lt_zpow_right₀ one_lt_two (by norm_num)

/-- The whole part of a positive double. -/
theorem roundToInt_positive (m : Nat) (e : Int) :
    roundToInt .positive m e = ⌊(m : Rat) * 2 ^ e⌋ := by
  have hplaces : Places (.ofMantissaAndAccuracy (decreaseExponent m e 0).1 .exact)
      (decreaseExponent m e 0).1 := rfl
  have hshifted := (hplaces.shiftRight (0 - (decreaseExponent m e 0).2).toNat).bounds
  have hexp : -((0 - (decreaseExponent m e 0).2).toNat : Int) = (decreaseExponent m e 0).2 := by
    change -((0 - (e - ((e - 0).toNat : Int))).toNat : Int) = e - ((e - 0).toNat : Int)
    omega
  rw [div_eq_mul_inv, ← zpow_natCast, ← zpow_neg, hexp, decreaseExponent_mul] at hshifted
  symm
  rw [Int.floor_eq_iff]
  exact hshifted

/-- A double that is a word in size is cut to its whole part. -/
theorem toNat_toUInt64 (hx : x.isFinite = true) (hnonneg : 0 ≤ value x)
    (hlt : value x < 2 ^ 64) : x.toUInt64.toNat = ⌊value x⌋₊ := by
  have hint : x.toModel.unpack.toInt 0 (UInt64.size - 1) = ⌊value x⌋ := by
    have hshape := isRounded_unpack hx
    unfold value at hnonneg ⊢
    cases hunpack : x.toModel.unpack with
    | zero s =>
      symm
      exact Int.floor_zero
    | infinity s | notANumber =>
      rw [hunpack] at hshape
      cases hshape
    | finite s m e hm =>
      rw [hunpack] at hnonneg
      cases s with
      | positive => exact roundToInt_positive m e
      | negative =>
        have hpos : (0 : Rat) < m * 2 ^ e := by positivity
        rw [unpackedValue_negative] at hnonneg
        linarith
  have hword : (⌊value x⌋).toNat < UInt64.size := by
    have hfloor : ⌊value x⌋ < 2 ^ 64 := by
      rw [Int.floor_lt]
      exact_mod_cast hlt
    have hsize : (UInt64.size : Int) = 2 ^ 64 := rfl
    omega
  change (UInt64.ofNatClamp (x.toModel.unpack.toInt 0 (UInt64.size - 1)).toNat).toNat = _
  rw [hint, UInt64.ofNatClamp_eq_ofNat _ hword, UInt64.toNat_ofNat_of_lt' hword]
  exact Int.floor_toNat _

/-! ## What is not finite -/

theorem isFinite_of_pack {f : UnpackedFloat}
    (h : (Float.ofModel (.pack f)).isFinite = true) : f.isFinite = true := by
  cases f with
  | zero s | finite s m e hm => rfl
  | infinity s =>
    have hnot : (Float.ofModel (.pack (.infinity s))).isFinite = false := by
      cases s <;> decide +kernel
    rw [hnot] at h
    cases h
  | notANumber =>
    have hnot : (Float.ofModel (.pack .notANumber)).isFinite = false := by decide +kernel
    rw [hnot] at h
    cases h

/-- A finite difference comes from finite doubles. -/
theorem isFinite_of_sub (h : (x - y).isFinite = true) :
    x.isFinite = true ∧ y.isFinite = true := by
  have hsub := isFinite_of_pack h
  change x.toModel.unpack.isFinite = true ∧ y.toModel.unpack.isFinite = true
  revert hsub
  cases x.toModel.unpack with
  | notANumber => nofun
  | infinity s =>
    cases y.toModel.unpack with
    | infinity s' => cases s <;> cases s' <;> nofun
    | zero s' | finite s' m e hm | notANumber => nofun
  | zero s | finite s m e hm =>
    cases y.toModel.unpack with
    | infinity s' | notANumber => nofun
    | zero s' | finite s' m' e' hm' => exact fun _ => ⟨rfl, rfl⟩

/-- A finite product comes from finite doubles. -/
theorem isFinite_of_mul (h : (x * y).isFinite = true) :
    x.isFinite = true ∧ y.isFinite = true := by
  have hmul := isFinite_of_pack h
  change x.toModel.unpack.isFinite = true ∧ y.toModel.unpack.isFinite = true
  revert hmul
  cases x.toModel.unpack with
  | notANumber => nofun
  | infinity s => cases y.toModel.unpack <;> nofun
  | zero s | finite s m e hm =>
    cases y.toModel.unpack with
    | infinity s' | notANumber => nofun
    | zero s' | finite s' m' e' hm' => exact fun _ => ⟨rfl, rfl⟩

/-- No finite quotient has a zero below. -/
theorem value_ne_zero_of_div (h : (x / y).isFinite = true) (hy : y.isFinite = true) :
    value y ≠ 0 := by
  have hdiv := isFinite_of_pack h
  change y.toModel.unpack.isFinite = true at hy
  unfold value
  revert hdiv hy
  cases y.toModel.unpack with
  | zero s => cases x.toModel.unpack <;> nofun
  | infinity s | notANumber => nofun
  | finite s m e hm =>
    intro _ _ hzero
    have hpos : (0 : Rat) < m * 2 ^ e := by positivity
    rw [← abs_unpackedValue (s := s) hm, hzero, abs_zero] at hpos
    exact lt_irrefl 0 hpos

/-- A finite quotient by a finite double comes from a finite one. -/
theorem isFinite_of_div (h : (x / y).isFinite = true) (hy : y.isFinite = true) :
    x.isFinite = true := by
  have hdiv := isFinite_of_pack h
  change y.toModel.unpack.isFinite = true at hy
  change x.toModel.unpack.isFinite = true
  revert hdiv hy
  cases x.toModel.unpack with
  | zero s | finite s m e hm => exact fun _ _ => rfl
  | infinity s | notANumber =>
    cases y.toModel.unpack with
    | infinity s' | notANumber | zero s' | finite s' m e hm => nofun

/-- An infinity absorbs what is finite. -/
theorem unpack_add_infinity (hx : x.toModel.unpack = .infinity .positive)
    (hy : y.isFinite = true) : (x + y).toModel.unpack = .infinity .positive := by
  change y.toModel.unpack.isFinite = true at hy
  have hadd : UnpackedFloat.add Format.binary64 x.toModel.unpack y.toModel.unpack =
      .infinity .positive := by
    rw [hx]
    revert hy
    cases y.toModel.unpack with
    | zero s | finite s m e hm => exact fun _ => rfl
    | infinity s | notANumber => nofun
  change UnpackedFloat.unpack Format.binary64 (UnpackedFloat.pack Format.binary64
    (UnpackedFloat.add Format.binary64 x.toModel.unpack y.toModel.unpack)) = _
  rw [hadd]
  rfl

end Operations

end PulseNoise.Number
