import PulseNoise.Proofs.Denotation

/-!
# Square roots of doubles

The root of a double is rarely a rational number. What rounding knows of it is its whole part and
the half in which the rest of it lies, and there are rational numbers on either side of the root
that share this with it. So the rounded root compares with any number as the squares compare.

* `exists_places_sqrt` finds such numbers beside the root of a natural number.
* `exists_roundsTo_sqrt` says of which numbers the root of a double is the rounding.
* `isFinite_sqrt`, `le_value_sqrt` and `value_sqrt_le` are bounds of the root.
-/

namespace PulseNoise.Number

open Float.Model Float.Model.UnpackedFloat

/-! ## Roots of natural numbers -/

/-- In which half between two natural numbers a root lies. -/
def rootAccuracy (m : Nat) : Accuracy :=
  if m - m.sqrt * m.sqrt = 0 then .exact
  else .inexact (if m - m.sqrt * m.sqrt ≤ m.sqrt then .lt else .gt)

/-- Between two numbers that a root separates there are numbers on either side of the root. -/
theorem exists_beside_root {a b m δ : Rat} (ha : 0 ≤ a) (hb : 0 ≤ b) (hδ : 0 ≤ δ) (hlow : a * a < m)
    (hhigh : m < b * b) :
    (δ * δ ≤ m → ∃ y, δ ≤ y ∧ a < y ∧ y < b) ∧ (m ≤ δ * δ → ∃ y, y ≤ δ ∧ a < y ∧ y < b) := by
  have hab : a < b := (mul_self_lt_mul_self_iff ha hb).2 (hlow.trans hhigh)
  have hleft : a < (a + b) / 2 := left_lt_add_div_two.2 hab
  have hright : (a + b) / 2 < b := add_div_two_lt_right.2 hab
  constructor
  · intro h
    have hlt : δ < b := (mul_self_lt_mul_self_iff hδ hb).2 (h.trans_lt hhigh)
    exact ⟨max δ ((a + b) / 2), le_max_left _ _, lt_max_of_lt_right hleft, max_lt hlt hright⟩
  · intro h
    have hlt : a < δ := (mul_self_lt_mul_self_iff ha hδ).2 (hlow.trans_le h)
    exact ⟨min δ ((a + b) / 2), min_le_left _ _, lt_min hlt hleft, min_lt_of_right_lt hright⟩

/-- The whole part of a root and its half place numbers on either side of the root. -/
theorem exists_places_sqrt (m : Nat) {δ : Rat} (hδ : 0 ≤ δ) :
    (δ * δ ≤ m → ∃ y, δ ≤ y ∧ Places (.ofMantissaAndAccuracy m.sqrt (rootAccuracy m)) y) ∧
      (m ≤ δ * δ → ∃ y, y ≤ δ ∧ Places (.ofMantissaAndAccuracy m.sqrt (rootAccuracy m)) y) := by
  obtain ⟨r, hr⟩ : ∃ r, m.sqrt = r := ⟨_, rfl⟩
  have hle : r * r ≤ m := hr ▸ Nat.sqrt_le m
  have hlt : m < (r + 1) * (r + 1) := hr ▸ Nat.lt_succ_sqrt m
  have hnonneg : (0 : Rat) ≤ r := Nat.cast_nonneg r
  unfold rootAccuracy
  rw [hr]
  by_cases hexact : m - r * r = 0
  · rw [if_pos hexact]
    have hsquare : (m : Rat) = r * r := by
      exact_mod_cast le_antisymm (Nat.sub_eq_zero_iff_le.1 hexact) hle
    rw [hsquare]
    exact ⟨fun h => ⟨r, (mul_self_le_mul_self_iff hδ hnonneg).2 h, rfl⟩,
      fun h => ⟨r, (mul_self_le_mul_self_iff hnonneg hδ).2 h, rfl⟩⟩
  · rw [if_neg hexact]
    by_cases hhalf : m - r * r ≤ r
    · rw [if_pos hhalf]
      have hlow : (r : Rat) * r < m := by
        exact_mod_cast lt_of_le_of_ne hle fun heq => hexact (by omega)
      have hhigh : (m : Rat) < (r + 1 / 2) * (r + 1 / 2) := by
        have hcast : (m : Rat) ≤ r * r + r := by exact_mod_cast Nat.sub_le_iff_le_add'.1 hhalf
        linarith
      exact exists_beside_root hnonneg (by linarith) hδ hlow hhigh
    · rw [if_neg hhalf]
      have hlow : (r + 1 / 2) * (r + 1 / 2) < (m : Rat) := by
        have hcast : (r : Rat) * r + r + 1 ≤ m := by
          have : r * r + r + 1 ≤ m := by omega
          exact_mod_cast this
        linarith
      have hhigh : (m : Rat) < (r + 1) * (r + 1) := by exact_mod_cast hlt
      exact exists_beside_root (by linarith) (by linarith) hδ hlow hhigh

/-! ## Roots of doubles -/

/-- The root has as many bits as rounding needs. -/
theorem sqrt_fits {m : Nat} {e : Int} (hm : 0 < m) :
    (sqrtCore Format.binary64 m e).2.1 ≤ Format.binary64.targetExponent
      (totalExponent (sqrtCore Format.binary64 m e).1 (sqrtCore Format.binary64 m e).2.1) := by
  unfold sqrtCore
  dsimp only
  generalize ht : min (e.ediv 2)
    (Format.binary64.targetExponent ((totalExponent m e + 1).ediv 2)) = t
  have hdiv (z : Int) : z.ediv 2 = z / 2 := rfl
  rw [targetExponent_eq, totalExponent, hdiv, hdiv] at ht
  rw [targetExponent_eq, totalExponent]
  by_cases hleast : t ≤ -1074
  · exact le_max_of_le_right hleast
  · obtain ⟨k, hk⟩ : ∃ k, (e - 2 * t).toNat = k := ⟨_, rfl⟩
    have hbits : 104 ≤ (m <<< k).log2 := by
      rw [log2_shiftLeft hm]
      omega
    have hroot : 2 ^ 52 ≤ (m <<< k).sqrt := by
      rw [Nat.le_sqrt, ← pow_add]
      have hpos : m <<< k ≠ 0 := by
        intro hzero
        rw [hzero, Nat.log2_zero] at hbits
        omega
      exact (Nat.le_log2 hpos).1 hbits
    have hlog : 52 ≤ ((m <<< k).sqrt).log2 := (Nat.le_log2 (by omega)).2 hroot
    rw [hk]
    omega

/-- Numbers on either side of the root of a positive double to which the rounded root is nearest. -/
theorem exists_nearest_sqrt {m : Nat} {e : Int} (hm : 0 < m) {δ : Rat} (hδ : 0 ≤ δ) :
    IsRounded (UnpackedFloat.sqrt Format.binary64 (.finite .positive m e hm)) ∧
      (δ * δ ≤ m * 2 ^ e → ∃ q, δ ≤ q ∧ Nearest q
        (unpackedValue (UnpackedFloat.sqrt Format.binary64 (.finite .positive m e hm)))) ∧
      (m * 2 ^ e ≤ δ * δ → ∃ q, 0 ≤ q ∧ q ≤ δ ∧ Nearest q
        (unpackedValue (UnpackedFloat.sqrt Format.binary64 (.finite .positive m e hm)))) := by
  obtain ⟨t, ht⟩ : ∃ t, min (e.ediv 2)
    (Format.binary64.targetExponent ((totalExponent m e + 1).ediv 2)) = t := ⟨_, rfl⟩
  obtain ⟨n, hn⟩ : ∃ n, m <<< (e - 2 * t).toNat = n := ⟨_, rfl⟩
  have hcore : sqrtCore Format.binary64 m e = (n.sqrt, t, rootAccuracy n) := by
    rw [← hn, ← ht]
    rfl
  have hpow : (0 : Rat) < 2 ^ t := by positivity
  have hsplit : (m : Rat) * 2 ^ e = n * (2 ^ t * 2 ^ t) := by
    have hdiv : (e.ediv 2 : Int) = e / 2 := rfl
    have hexp : e = (e - 2 * t).toNat + (t + t) := by omega
    rw [← hn, Nat.shiftLeft_eq, ← zpow_add₀ two_ne_zero]
    push_cast
    rw [mul_assoc, ← zpow_natCast, ← zpow_add₀ two_ne_zero, ← hexp]
  have hfits := sqrt_fits (e := e) hm
  rw [hcore] at hfits
  have hnearest {y : Rat} (hy : Places (.ofMantissaAndAccuracy n.sqrt (rootAccuracy n)) y) :
      IsRounded (UnpackedFloat.sqrt Format.binary64 (.finite .positive m e hm)) ∧
        Nearest (y * 2 ^ t)
          (unpackedValue (UnpackedFloat.sqrt Format.binary64 (.finite .positive m e hm))) := by
    have hround := nearest_roundWithAccuracy .positive hy hfits
    rw [show (Sign.positive.apply 1 : Rat) = 1 by simp [Sign.apply], one_mul] at hround
    change IsRounded (roundWithAccuracy _ _ (sqrtCore _ m e).1 (sqrtCore _ m e).2.1
      (sqrtCore _ m e).2.2) ∧ Nearest _ (unpackedValue (roundWithAccuracy _ _
        (sqrtCore _ m e).1 (sqrtCore _ m e).2.1 (sqrtCore _ m e).2.2))
    rw [hcore]
    exact hround
  -- the number to compare with is measured in units of the root's last place
  obtain ⟨hbelow, habove⟩ := exists_places_sqrt n (δ := δ / 2 ^ t) (by positivity)
  have hsquare : δ / 2 ^ t * (δ / 2 ^ t) = δ * δ / (2 ^ t * 2 ^ t) := div_mul_div_comm _ _ _ _
  rw [hsquare] at hbelow habove
  have hnonneg {y : Rat} (hy : Places (.ofMantissaAndAccuracy n.sqrt (rootAccuracy n)) y) : 0 ≤ y :=
    (Nat.cast_nonneg _).trans hy.bounds.1
  rw [hsplit]
  refine ⟨?_, fun h => ?_, fun h => ?_⟩
  · obtain ⟨y, -, hy⟩ := (exists_places_sqrt n (δ := 0) le_rfl).1 (by simp)
    exact (hnearest hy).1
  · obtain ⟨y, hle, hy⟩ := hbelow ((div_le_iff₀ (mul_pos hpow hpow)).2 h)
    exact ⟨y * 2 ^ t, (div_le_iff₀ hpow).1 hle, (hnearest hy).2⟩
  · obtain ⟨y, hle, hy⟩ := habove ((le_div_iff₀ (mul_pos hpow hpow)).2 h)
    exact ⟨y * 2 ^ t, mul_nonneg (hnonneg hy) hpow.le, (le_div_iff₀ hpow).1 hle,
      (hnearest hy).2⟩

section Operations

variable {x : Float} {δ : Rat}

/-- The root of a double is what numbers on either side of the exact root are rounded to. -/
theorem exists_roundsTo_sqrt (hx : x.isFinite = true) (hnonneg : 0 ≤ value x) (hδ : 0 ≤ δ) :
    (δ * δ ≤ value x → ∃ q, δ ≤ q ∧ RoundsTo q x.sqrt) ∧
      (value x ≤ δ * δ → ∃ q, 0 ≤ q ∧ q ≤ δ ∧ RoundsTo q x.sqrt) := by
  have hshape := isRounded_unpack hx
  unfold value at hnonneg ⊢
  have hsqrt : x.sqrt = .ofModel (.pack (UnpackedFloat.sqrt Format.binary64 x.toModel.unpack)) :=
    rfl
  rw [hsqrt]
  cases hunpack : x.toModel.unpack with
  | infinity s | notANumber =>
    rw [hunpack] at hshape
    cases hshape
  | zero s =>
    have hround : RoundsTo 0 (.ofModel (.pack (.zero s))) :=
      roundsTo_pack (f := .zero s) trivial IsDouble.zero.nearest
    rw [show unpackedValue (.zero s) = 0 * 0 from (mul_zero 0).symm]
    exact ⟨fun h => ⟨0, (mul_self_le_mul_self_iff hδ le_rfl).2 h, hround⟩,
      fun _ => ⟨0, le_rfl, hδ, hround⟩⟩
  | finite s m e hm =>
    rw [hunpack] at hnonneg
    cases s with
    | negative =>
      rw [unpackedValue_negative] at hnonneg
      have hpos : (0 : Rat) < m * 2 ^ e := by positivity
      linarith
    | positive =>
      obtain ⟨hrounded, hbelow, habove⟩ := exists_nearest_sqrt (e := e) hm hδ
      rw [unpackedValue_positive]
      constructor
      · intro h
        obtain ⟨q, hq, hnearest⟩ := hbelow h
        exact ⟨q, hq, roundsTo_pack hrounded hnearest⟩
      · intro h
        obtain ⟨q, hq, hle, hnearest⟩ := habove h
        exact ⟨q, hq, hle, roundsTo_pack hrounded hnearest⟩

/-- The square of `2 ^ 512` is out of range, so that no root is as great. -/
theorem isFinite_sqrt (hx : x.isFinite = true) (hnonneg : 0 ≤ value x) :
    x.sqrt.isFinite = true := by
  have hbound : Stands (Float.ofBits 0x5ff0000000000000) (2 ^ (512 : Int)) :=
    ⟨by decide +kernel, by decide +kernel⟩
  have hlimit : value x ≤ 2 ^ (512 : Int) * 2 ^ (512 : Int) := by
    refine (le_abs_self _).trans ((abs_value_lt hx).le.trans_eq ?_)
    rw [limit, ← zpow_add₀ two_ne_zero, show (512 : Int) + 512 = 1024 by norm_num]
  obtain ⟨q, hq, hle, hround⟩ := (exists_roundsTo_sqrt hx hnonneg (by positivity)).2 hlimit
  exact hround.isFinite stands_zero.isFinite hbound.isFinite (stands_zero.value_eq.trans_le hq)
    (hle.trans_eq hbound.value_eq.symm)

theorem le_value_sqrt (hx : x.isFinite = true) (hnonneg : 0 ≤ value x) (hdouble : IsDouble δ)
    (hδ : 0 ≤ δ) (h : δ * δ ≤ value x) : δ ≤ value x.sqrt := by
  obtain ⟨q, hq, hround⟩ := (exists_roundsTo_sqrt hx hnonneg hδ).1 h
  exact (hround.nearest (isFinite_sqrt hx hnonneg)).ge_of_ge hdouble hq

theorem value_sqrt_le (hx : x.isFinite = true) (hnonneg : 0 ≤ value x) (hdouble : IsDouble δ)
    (hδ : 0 ≤ δ) (h : value x ≤ δ * δ) : value x.sqrt ≤ δ := by
  obtain ⟨q, -, hq, hround⟩ := (exists_roundsTo_sqrt hx hnonneg hδ).2 h
  exact (hround.nearest (isFinite_sqrt hx hnonneg)).le_of_le hdouble hq

end Operations

end PulseNoise.Number
