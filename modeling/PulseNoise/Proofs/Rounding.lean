import PulseNoise.Proofs.Nearest

/-!
# Rounding of doubles

A result is rounded on its mantissa. Bits that do not fit are shifted out, and two of them tell how
the rest compares with the middle of two mantissas, so that nothing that rounding needs is lost.
Here rounding gives a nearest double, and packing it loses nothing unless it is out of range.

* `Places em y` says what an extended mantissa knows of a number, `Places.shiftRight` that shifting
  keeps it.
* `nearest_roundWithAccuracy` says that rounding gives a nearest double, in canonical form.
* `unpack_pack` and `unpack_pack_overflow` say what packing keeps.
-/

namespace PulseNoise.Number

open Float.Model Float.Model.UnpackedFloat

/-! ## Extended mantissas -/

/-- The two bits of an extended mantissa place a number: it is the mantissa itself, below the
middle to the next one, that middle, or above it. -/
def Places (em : ExtendedMantissa) (y : Rat) : Prop :=
  match em.roundBit, em.stickyBit with
  | false, false => y = em.mantissa
  | false, true => em.mantissa < y ∧ y < em.mantissa + 1 / 2
  | true, false => y = em.mantissa + 1 / 2
  | true, true => em.mantissa + 1 / 2 < y ∧ y < em.mantissa + 1

namespace Places

variable {em : ExtendedMantissa} {y : Rat}

theorem bounds (h : Places em y) : (em.mantissa : Rat) ≤ y ∧ y < em.mantissa + 1 := by
  obtain ⟨m, r, s⟩ := em
  cases r <;> cases s <;> simp only [Places] at h ⊢ <;> constructor <;> linarith

/-- Halving a number shifts its mantissa by one place. -/
theorem shiftRightOne (h : Places em y) : Places em.shiftRightOne (y / 2) := by
  obtain ⟨m, r, s⟩ := em
  have hsplit : (m : Rat) = 2 * (m / 2 : Nat) + (m % 2 : Nat) := by
    exact_mod_cast (Nat.div_add_mod m 2).symm
  rcases Nat.mod_two_eq_zero_or_one m with hmod | hmod <;> rw [hmod] at hsplit <;>
    cases r <;> cases s <;>
    simp only [Places, ExtendedMantissa.shiftRightOne, hmod, bne_self_eq_false,
      Bool.or_false, Bool.or_true, Nat.reduceBNe] at h ⊢ <;>
    first
      | linarith
      | constructor <;> linarith

theorem shiftRight (h : Places em y) (n : Nat) : Places (em >>> n) (y / 2 ^ n) := by
  induction n with
  | zero =>
    rw [pow_zero, div_one]
    exact h
  | succ n ih =>
    rw [pow_succ, ← div_div]
    exact ih.shiftRightOne

/-- The rounded mantissa is a nearest natural number. -/
theorem abs_roundedMantissa_sub_le (h : Places em y) :
    |(em.roundedMantissa : Rat) - y| ≤ 1 / 2 := by
  obtain ⟨m, r, s⟩ := em
  have hmod : ((m % 2 : Nat) : Rat) ≤ 1 := by
    exact_mod_cast Nat.le_of_lt_succ (Nat.mod_lt m two_pos)
  have hnonneg : (0 : Rat) ≤ (m % 2 : Nat) := Nat.cast_nonneg _
  cases r <;> cases s <;>
    simp only [Places, ExtendedMantissa.roundedMantissa, ExtendedMantissa.accuracy,
      Accuracy.roundToNearestEven, Nat.cast_add, Nat.cast_one] at h ⊢ <;>
    rw [abs_le] <;> constructor <;> linarith

end Places

/-! ## Rounding -/

theorem log2_le_of_le {m p : Nat} (h : m < 2 ^ (p + 1)) : m.log2 ≤ p := by
  by_cases h0 : m = 0
  · rw [h0]
    exact Nat.zero_le p
  · exact Nat.le_of_lt_succ ((Nat.log2_lt h0).2 h)

/-- A rounded mantissa may have become one too large, and is shifted once more then. -/
theorem shiftToTargetExponent_rounded {m : Nat} {t : Int} (hm : m ≤ 2 ^ 53) (ht : -1074 ≤ t)
    (hfull : 2 ^ 52 ≤ m ∨ t = -1074) :
    Canonical (shiftToTargetExponent Format.binary64 m t .exact).1.mantissa
        (shiftToTargetExponent Format.binary64 m t .exact).2 ∧
      ((shiftToTargetExponent Format.binary64 m t .exact).1.mantissa : Rat) *
        2 ^ (shiftToTargetExponent Format.binary64 m t .exact).2 = m * 2 ^ t := by
  have hshift {k : Nat}
      (hk : (Format.binary64.targetExponent (totalExponent m t) - t).toNat = k) :
      shiftToTargetExponent Format.binary64 m t .exact =
        ((⟨m, false, false⟩ : ExtendedMantissa) >>> k, t + k) := by
    rw [← hk]
    rfl
  rcases hm.lt_or_eq with hlt | rfl
  · have hlog : m.log2 ≤ 52 := log2_le_of_le hlt
    rw [hshift (k := 0) (by rw [targetExponent_eq, totalExponent]; omega), Nat.cast_zero,
      add_zero]
    exact ⟨⟨hlt, ht, hfull⟩, rfl⟩
  · have hlog : (2 ^ 53 : Nat).log2 = 53 := Nat.log2_two_pow
    rw [hshift (k := 1) (by rw [targetExponent_eq, totalExponent, hlog]; omega)]
    have hhalf : ((⟨2 ^ 53, false, false⟩ : ExtendedMantissa) >>> 1).mantissa = 2 ^ 52 := rfl
    rw [hhalf]
    refine ⟨⟨by norm_num, by omega, .inl le_rfl⟩, ?_⟩
    rw [Nat.cast_one, zpow_add_one₀ two_ne_zero]
    push_cast
    ring

theorem isRounded_ofMantissa (s : Sign) {m : Nat} {e : Int} (h : Canonical m e) :
    IsRounded (if h : m = 0 then .zero s else .finite s m e (Nat.pos_of_ne_zero h)) := by
  cases m with
  | zero => trivial
  | succ m => exact h

theorem unpackedValue_ofMantissa (s : Sign) (m : Nat) (e : Int) :
    unpackedValue (if h : m = 0 then .zero s else .finite s m e (Nat.pos_of_ne_zero h)) =
      s.apply m * 2 ^ e := by
  cases m with
  | zero =>
    change (0 : Rat) = _
    cases s <;> simp [Sign.apply]
  | succ m => rfl

theorem apply_mul (s : Sign) (m : Nat) (q : Rat) : (s.apply m : Rat) * q = s.apply 1 * (m * q) := by
  cases s <;> simp [Sign.apply]

theorem Nearest.apply {q r : Rat} (h : Nearest q r) (s : Sign) :
    Nearest (s.apply 1 * q) (s.apply 1 * r) := by
  cases s with
  | negative => simpa [Sign.apply] using h.neg
  | positive => simpa [Sign.apply] using h

/-- The target exponent leaves at most 53 bits of a mantissa, and all of them unless it is the
least exponent. -/
theorem shifted_bounds {m k : Nat} {e : Int} {y : Rat} (hm : m ≤ y) (hlt : y < m + 1)
    (he : e ≤ Format.binary64.targetExponent (totalExponent m e))
    (hk : (Format.binary64.targetExponent (totalExponent m e) - e).toNat = k) :
    -1074 ≤ e + k ∧ y / 2 ^ k < 2 ^ 53 ∧ (2 ^ 52 ≤ y / 2 ^ k ∨ e + k = -1074) := by
  rw [targetExponent_eq, totalExponent] at he hk
  have hpos : (0 : Rat) < 2 ^ k := by positivity
  refine ⟨by omega, ?_, ?_⟩
  · have hbits : m + 1 ≤ 2 ^ (53 + k) :=
      Nat.lt_log2_self.trans_le (Nat.pow_le_pow_right two_pos (by omega))
    rw [div_lt_iff₀ hpos, ← pow_add]
    exact hlt.trans_le (by exact_mod_cast hbits)
  · by_cases hleast : e + k = -1074
    · exact .inr hleast
    · have hlog : m.log2 = 52 + k := by omega
      have hbits : 2 ^ (52 + k) ≤ m := by
        rw [← hlog]
        apply Nat.log2_self_le
        rintro rfl
        rw [Nat.log2_zero] at hlog
        omega
      left
      rw [le_div_iff₀ hpos, ← pow_add]
      exact le_trans (by exact_mod_cast hbits) hm

/-- The rounded mantissa of a number below `2 ^ 53` is full when the number is. -/
theorem Places.roundedMantissa_bounds {em : ExtendedMantissa} {y : Rat} (h : Places em y)
    (hhigh : y < 2 ^ 53) :
    em.roundedMantissa ≤ 2 ^ 53 ∧ (2 ^ 52 ≤ y → 2 ^ 52 ≤ em.roundedMantissa) := by
  refine ⟨?_, fun hlow => ?_⟩
  · have hbelow : em.mantissa < 2 ^ 53 := by exact_mod_cast h.bounds.1.trans_lt hhigh
    exact (roundedMantissa_le em).trans hbelow
  · have hgt : (2 : Rat) ^ 52 < em.roundedMantissa + 1 := by
      have := (abs_le.1 h.abs_roundedMantissa_sub_le).1
      linarith
    exact Nat.le_of_lt_succ (by exact_mod_cast hgt)

/-- The rounded mantissa of a number, with the exponent of the number's last place. -/
theorem Places.nearest {em : ExtendedMantissa} {y : Rat} {t : Int} (h : Places em y)
    (ht : -1074 ≤ t) (hhigh : y < 2 ^ 53) (hlow : 2 ^ 52 ≤ y ∨ t = -1074) :
    Nearest (y * 2 ^ t) (em.roundedMantissa * 2 ^ t) := by
  have hpos : (0 : Rat) < 2 ^ t := by positivity
  refine nearest_of_abs_sub_le (R := _) ht ?_ ?_ ?_
  · exact hlow.imp_left fun hlow => by gcongr
  · rw [Nat.abs_cast]
    exact_mod_cast (h.roundedMantissa_bounds hhigh).1
  · rw [mul_div_cancel_right₀ _ hpos.ne']
    exact_mod_cast h.abs_roundedMantissa_sub_le

/-- Rounding a number that an extended mantissa places gives a nearest double in canonical form. -/
theorem nearest_roundWithAccuracy (s : Sign) {m : Nat} {e : Int} {accuracy : Accuracy} {y : Rat}
    (hy : Places (.ofMantissaAndAccuracy m accuracy) y)
    (he : e ≤ Format.binary64.targetExponent (totalExponent m e)) :
    IsRounded (roundWithAccuracy Format.binary64 s m e accuracy) ∧
      Nearest (s.apply 1 * (y * 2 ^ e))
        (unpackedValue (roundWithAccuracy Format.binary64 s m e accuracy)) := by
  have hmantissa : (ExtendedMantissa.ofMantissaAndAccuracy m accuracy).mantissa = m := by
    rcases accuracy with _ | (_ | _ | _) <;> rfl
  obtain ⟨hm, hlt⟩ := hy.bounds
  rw [hmantissa] at hm hlt
  obtain ⟨k, hk⟩ : ∃ k, (Format.binary64.targetExponent (totalExponent m e) - e).toNat = k :=
    ⟨_, rfl⟩
  obtain ⟨hleast, hhigh, hlow⟩ := shifted_bounds hm hlt he hk
  have hplaces := hy.shiftRight k
  obtain ⟨hR, hfull⟩ := hplaces.roundedMantissa_bounds hhigh
  obtain ⟨hcanonical, hvalue⟩ := shiftToTargetExponent_rounded hR hleast (hlow.imp_left hfull)
  have hscale : y * 2 ^ e = y / 2 ^ k * 2 ^ (e + k) := by
    rw [zpow_add₀ two_ne_zero, zpow_natCast]
    field_simp
  have hnearest := (hplaces.nearest hleast hhigh hlow).apply s
  rw [← hscale, ← hvalue, ← apply_mul, ← unpackedValue_ofMantissa] at hnearest
  have hshape := isRounded_ofMantissa s hcanonical
  subst hk
  exact ⟨hshape, hnearest⟩

/-! ## Packing -/

/-- The sign can be read from its bit. -/
theorem sign_packComponents (s : Sign) (exponent : BitVec 11) (mantissa : BitVec 52) :
    Sign.ofBitVec (unpackSign (packComponents Format.binary64 s exponent mantissa)) = s := by
  have hbit : (s.toBitVec ++ exponent ++ mantissa).extractLsb' 63 1 = s.toBitVec := by
    rw [BitVec.extractLsb'_append_eq_of_le (by decide),
      BitVec.extractLsb'_append_eq_of_le (by decide)]
    exact BitVec.extractLsb'_eq_self
  change Sign.ofBitVec ((s.toBitVec ++ exponent ++ mantissa).extractLsb' 63 1) = s
  rw [hbit]
  cases s <;> rfl

theorem toNat_implicit_pos (mantissa : BitVec 52) : 0 < (1#1 ++ mantissa).toNat := by
  rw [BitVec.toNat_append]
  exact Nat.lt_of_lt_of_le (by decide : 0 < (1#1).toNat <<< 52) Nat.left_le_or

/-- What packed components stand for, by the exponent. -/
theorem unpack_packComponents (s : Sign) (exponent : BitVec 11) (mantissa : BitVec 52) :
    UnpackedFloat.unpack Format.binary64 (packComponents Format.binary64 s exponent mantissa) =
      if exponent = -1#11 then if mantissa = 0#52 then .infinity s else .notANumber
      else if exponent = 0#11 then
        if h : mantissa = 0#52 then .zero s
        else .finite s mantissa.toNat (exponent.toNat - 1075 + 1)
          (by simpa [BitVec.toNat_pos, BitVec.pos_iff_ne_zero])
      else .finite s (1#1 ++ mantissa).toNat (exponent.toNat - 1075)
        (toNat_implicit_pos mantissa) := by
  have hexponent : unpackExponent (packComponents Format.binary64 s exponent mantissa) =
      exponent := unpackExponent_packComponents
  have hmantissa : unpackMantissa (packComponents Format.binary64 s exponent mantissa) =
      mantissa := unpackMantissa_packComponents
  have hsign := sign_packComponents s exponent mantissa
  generalize packComponents Format.binary64 s exponent mantissa = bits at *
  subst hexponent hmantissa hsign
  rfl

/-- Bits with an exponent between those of subnormal numbers and infinities. -/
theorem unpack_packComponents_normal (s : Sign) {exponent : BitVec 11} {mantissa : BitVec 52}
    (hzero : exponent ≠ 0#_) (hones : exponent ≠ -1#_) {m : Nat} {e : Int} (hm : 0 < m)
    (hmantissa : (1#1 ++ mantissa).toNat = m) (hexponent : (exponent.toNat : Int) - 1075 = e) :
    UnpackedFloat.unpack Format.binary64 (packComponents Format.binary64 s exponent mantissa) =
      .finite s m e hm := by
  rw [unpack_packComponents, if_neg hones, if_neg hzero, UnpackedFloat.finite.injEq]
  exact ⟨rfl, hmantissa, hexponent⟩

theorem unpack_packComponents_subnormal (s : Sign) {mantissa : BitVec 52} {m : Nat} (hm : 0 < m)
    (hmantissa : mantissa.toNat = m) :
    UnpackedFloat.unpack Format.binary64 (packComponents Format.binary64 s 0#_ mantissa) =
      .finite s m (-1074) hm := by
  have hne : mantissa ≠ 0#_ := by
    rintro rfl
    exact hm.ne hmantissa
  rw [unpack_packComponents, if_neg (by decide), if_pos rfl, dif_neg hne,
    UnpackedFloat.finite.injEq]
  exact ⟨rfl, hmantissa, by decide⟩

/-- A double in canonical form is packed without loss, when its exponent is that of a double. -/
theorem unpack_pack {f : UnpackedFloat} (hf : IsRounded f) (hfits : Fits 971 f) :
    UnpackedFloat.unpack Format.binary64 (UnpackedFloat.pack Format.binary64 f) = f := by
  cases f with
  | infinity s => cases hf
  | notANumber => cases hf
  | zero s =>
    change UnpackedFloat.unpack _ (packComponents Format.binary64 s 0#11 0#52) = _
    rw [unpack_packComponents, if_neg (by decide), if_pos rfl, dif_pos rfl]
  | finite s m e hm =>
    obtain ⟨hlt, hleast, hfull⟩ : Canonical m e := hf
    have he : e ≤ 971 := hfits.2
    obtain ⟨biased, hbiased, hle, hge, hexponent⟩ : ∃ biased : Nat, (e + 1075).toNat = biased ∧
        biased ≤ 2046 ∧ 1 ≤ biased ∧ (biased : Int) - 1075 = e :=
      ⟨_, rfl, by omega, by omega, by omega⟩
    have hbits : (BitVec.ofNat 11 biased).toNat = biased := by
      rw [BitVec.toNat_ofNat, Nat.mod_eq_of_lt (by omega)]
    rw [pack_finite, hbiased, if_neg (by omega)]
    by_cases hnormal : 2 ^ 52 ≤ m
    · have hbitsEq : m.log2 + 1 = 53 :=
        congrArg (· + 1) ((Nat.log2_eq_iff hm.ne').2 ⟨hnormal, hlt⟩)
      rw [if_pos hbitsEq]
      apply unpack_packComponents_normal
      · intro hzero
        rw [hzero] at hbits
        exact absurd (hbits.symm.trans (by decide : (0#11).toNat = 0)) (by omega)
      · intro hones
        rw [hones] at hbits
        exact absurd (hbits.symm.trans (by decide : (-1#11).toNat = 2047)) (by omega)
      · have hsplit : m = 2 ^ 52 * 1 + m % 2 ^ 52 := by omega
        rw [BitVec.toNat_append, BitVec.toNat_ofNat, BitVec.toNat_ofNat, Nat.shiftLeft_eq]
        conv_rhs => rw [hsplit, Nat.two_pow_add_eq_or_of_lt (Nat.mod_lt m (by positivity))]
      · rw [hbits, hexponent]
    · have hlog : m.log2 < 52 := (Nat.log2_lt hm.ne').2 (not_le.1 hnormal)
      have hbitsNe : m.log2 + 1 ≠ 53 := by omega
      obtain rfl : e = -1074 := hfull.resolve_left hnormal
      rw [if_neg hbitsNe]
      apply unpack_packComponents_subnormal
      rw [BitVec.toNat_ofNat, Nat.mod_eq_of_lt (not_le.1 hnormal)]

/-- A double in canonical form whose exponent is too large is packed as an infinity. -/
theorem unpack_pack_overflow (s : Sign) {m : Nat} {e : Int} (hm : 0 < m) (he : 971 < e) :
    UnpackedFloat.unpack Format.binary64
      (UnpackedFloat.pack Format.binary64 (.finite s m e hm)) = .infinity s := by
  have hbiased : 2048 ≤ (e + 1075).toNat + 1 := by omega
  rw [pack_finite, if_pos hbiased]
  change UnpackedFloat.unpack _ (packComponents Format.binary64 s (-1#11) 0#52) = _
  rw [unpack_packComponents, if_pos rfl, if_pos rfl]

end PulseNoise.Number
