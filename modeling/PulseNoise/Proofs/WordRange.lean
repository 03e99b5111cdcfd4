import PulseNoise.Number.Scaling
import Mathlib.Algebra.Order.Ring.Int

/-!
# Words are in range

A natural number of 64 bits is read as a double when it stands in a JSON text. The reader rounds it
and multiplies twice by one, and refuses an infinite result. Here the exponents are followed
through these steps: each rounding and each product raises the exponent by at most a few hundred,
so that it stays below the greatest one.

* `Bounded k f` bounds an unpacked double and its exponent.
* `fits_unpack_pack` says that packing keeps such a bound, `bounded_mul` how a product raises it.
* `isSome_toFloat?_ofNat` says that a word is in range.
-/

namespace PulseNoise.Number

open Float.Model Float.Model.UnpackedFloat

/-- A zero, or a finite double with an exponent of at most `k`. -/
def Bounded (k : Int) : UnpackedFloat → Prop
  | .zero _ => True
  | .finite _ _ e _ => e ≤ k
  | .infinity _ | .notANumber => False

/-- A zero, or a finite double with a mantissa of at most 53 bits and an exponent of at most `k`. -/
def Fits (k : Int) : UnpackedFloat → Prop
  | .zero _ => True
  | .finite _ m e _ => m < 2 ^ 53 ∧ e ≤ k
  | .infinity _ | .notANumber => False

instance (k : Int) : (f : UnpackedFloat) → Decidable (Fits k f)
  | .zero _ => .isTrue trivial
  | .finite _ m e _ => inferInstanceAs (Decidable (m < 2 ^ 53 ∧ e ≤ k))
  | .infinity _ | .notANumber => .isFalse id

theorem Bounded.mono {j k : Int} {f : UnpackedFloat} (h : Bounded j f) (hjk : j ≤ k) :
    Bounded k f := by
  cases f with
  | zero s => trivial
  | finite s m e hm => exact Int.le_trans h hjk
  | infinity s => exact h
  | notANumber => exact h

theorem Fits.mono {j k : Int} {f : UnpackedFloat} (h : Fits j f) (hjk : j ≤ k) : Fits k f := by
  cases f with
  | zero s => trivial
  | finite s m e hm => exact ⟨h.1, Int.le_trans h.2 hjk⟩
  | infinity s => exact h
  | notANumber => exact h

/-! ## Rounding -/

theorem targetExponent_eq (t : Int) :
    Format.binary64.targetExponent t = max (t - 53) (-1074) := rfl

theorem targetExponent_le {m : Nat} {e : Int} {p : Nat} (hm : m < 2 ^ p) :
    Format.binary64.targetExponent (totalExponent m e) ≤ max (e + p) (-1074) := by
  have hlog : m.log2 ≤ p := by
    by_cases h0 : m = 0
    · simp [h0]
    · exact Nat.le_of_lt ((Nat.log2_lt h0).2 hm)
  rw [targetExponent_eq, totalExponent]
  omega

theorem mantissa_shiftRight_le (em : ExtendedMantissa) (n : Nat) :
    (em >>> n).mantissa ≤ em.mantissa := by
  induction n with
  | zero => exact Nat.le_refl _
  | succ n ih => exact Nat.le_trans (Nat.div_le_self _ 2) ih

theorem roundedMantissa_le (em : ExtendedMantissa) : em.roundedMantissa ≤ em.mantissa + 1 := by
  obtain ⟨m, r, s⟩ := em
  cases r <;> cases s <;>
    simp [ExtendedMantissa.roundedMantissa, ExtendedMantissa.accuracy,
      Accuracy.roundToNearestEven]
  omega

/-- A shift to the target exponent does not raise the mantissa, and raises the exponent by the
length of the mantissa at most. -/
theorem shiftToTargetExponent_le {m : Nat} {e : Int} {p : Nat} (hm : m < 2 ^ p) :
    (shiftToTargetExponent Format.binary64 m e .exact).1.mantissa ≤ m ∧
      (shiftToTargetExponent Format.binary64 m e .exact).2 ≤ max (e + p) (-1074) := by
  have htarget := targetExponent_le (e := e) hm
  refine ⟨mantissa_shiftRight_le ⟨m, false, false⟩ _, ?_⟩
  change e + ((Format.binary64.targetExponent (totalExponent m e) - e).toNat : Int) ≤ _
  omega

/-- A double is a zero or not as its mantissa is. -/
theorem bounded_ofMantissa (s : Sign) (m : Nat) {e k : Int} (he : e ≤ k) :
    Bounded k (if h : m = 0 then .zero s else .finite s m e (Nat.pos_of_ne_zero h)) := by
  cases m with
  | zero => trivial
  | succ m => exact he

/-- Rounding shifts twice, the second time a mantissa that is one greater at most. -/
theorem bounded_roundWithAccuracy (s : Sign) {m : Nat} {e k : Int} {p : Nat} (hm : m < 2 ^ p)
    (he : e ≤ k) (hk : -1074 ≤ k) :
    Bounded (k + 2 * p + 1) (roundWithAccuracy Format.binary64 s m e .exact) := by
  obtain ⟨hmantissa, hexponent⟩ := shiftToTargetExponent_le (e := e) hm
  have hrounded := roundedMantissa_le (shiftToTargetExponent Format.binary64 m e .exact).1
  have hlt :
      (shiftToTargetExponent Format.binary64 m e .exact).1.roundedMantissa < 2 ^ (p + 1) := by
    rw [Nat.pow_succ]
    omega
  obtain ⟨-, hfinal⟩ := shiftToTargetExponent_le
    (e := (shiftToTargetExponent Format.binary64 m e .exact).2) hlt
  push_cast at hfinal
  exact bounded_ofMantissa s _ (Int.le_trans hfinal (by omega))

/-! ## Packing -/

theorem bias_eq : (Format.binary64.exponentBias : Int) + (52 : Nat) = 1075 := by decide

/-- A double whose exponent is not that of infinities and NaNs is bounded by its exponent. -/
theorem fits_unpack {k : Int} {b : BitVec Format.binary64.numBits}
    (hfinite : UnpackedFloat.unpackExponent b ≠ -1#_)
    (hk : ((UnpackedFloat.unpackExponent b).toNat : Int) - 1075 ≤ k) (hk' : -1074 ≤ k) :
    Fits k (UnpackedFloat.unpack Format.binary64 b) := by
  unfold UnpackedFloat.unpack
  dsimp only
  rw [if_neg hfinite, bias_eq]
  by_cases hexponent : UnpackedFloat.unpackExponent b = 0#_
  · rw [if_pos hexponent]
    by_cases hmantissa : UnpackedFloat.unpackMantissa b = 0#_
    · rw [dif_pos hmantissa]
      trivial
    · rw [dif_neg hmantissa]
      refine ⟨Nat.lt_of_lt_of_le (UnpackedFloat.unpackMantissa b).isLt (by decide), ?_⟩
      rw [hexponent]
      exact hk'
  · rw [if_neg hexponent]
    exact ⟨(1#1 ++ UnpackedFloat.unpackMantissa b).isLt, hk⟩

/-- A number with a mantissa is packed as an infinity when its exponent is too large, by its
exponent when the mantissa is full, and else as a subnormal number. -/
theorem pack_finite (s : Sign) {m : Nat} (e : Int) (hm : 0 < m) :
    UnpackedFloat.pack Format.binary64 (.finite s m e hm) =
      if 2048 ≤ (e + 1075).toNat + 1 then packedInfinity Format.binary64 s
      else if m.log2 + 1 = 53 then
        packComponents Format.binary64 s (BitVec.ofNat 11 (e + 1075).toNat) (BitVec.ofNat 52 m)
      else packComponents Format.binary64 s 0#11 (BitVec.ofNat 52 m) := by
  have hbiased : e + Format.binary64.exponentBias + (52 : Nat) = e + 1075 := by
    rw [Int.add_assoc, bias_eq]
  unfold UnpackedFloat.pack
  dsimp only
  rw [hbiased]
  rfl

theorem fits_unpack_packComponents {k : Int} (s : Sign) {exponent : BitVec 11} (m : BitVec 52)
    (hfinite : exponent ≠ -1#_) (hk : (exponent.toNat : Int) - 1075 ≤ k) (hk' : -1074 ≤ k) :
    Fits k (UnpackedFloat.unpack Format.binary64
      (packComponents Format.binary64 s exponent m)) := by
  have hexponent : UnpackedFloat.unpackExponent (packComponents Format.binary64 s exponent m) =
      exponent := unpackExponent_packComponents
  refine fits_unpack ?_ ?_ hk'
  · rwa [hexponent]
  · rwa [hexponent]

/-- Packing a bounded double gives a finite one, when the bound is below the greatest exponent. -/
theorem fits_unpack_pack {k : Int} {f : UnpackedFloat} (h : Bounded k f) (hk : k ≤ 970)
    (hk' : -1074 ≤ k) :
    Fits k (UnpackedFloat.unpack Format.binary64 (UnpackedFloat.pack Format.binary64 f)) := by
  cases f with
  | infinity s => cases h
  | notANumber => cases h
  | zero s => exact fits_unpack_packComponents s 0 (by decide) (by simp; omega) hk'
  | finite s m e hm =>
    have he : e ≤ k := h
    obtain ⟨biased, hbiased, hle, hlek⟩ : ∃ biased : Nat, (e + 1075).toNat = biased ∧
        biased ≤ 2045 ∧ (biased : Int) ≤ max (k + 1075) 0 := ⟨_, rfl, by omega, by omega⟩
    rw [pack_finite, hbiased]
    have hexponent : (BitVec.ofNat 11 biased).toNat = biased := by
      rw [BitVec.toNat_ofNat, Nat.mod_eq_of_lt (by omega)]
    split
    · omega
    · split
      · refine fits_unpack_packComponents s _ (fun hones => ?_) (by rw [hexponent]; omega) hk'
        rw [hones] at hexponent
        have : (-1#11).toNat = 2047 := by decide
        omega
      · exact fits_unpack_packComponents s _ (by decide) (by simp; omega) hk'

/-! ## Products and words -/

theorem bounded_mul {j k : Int} {f g : UnpackedFloat} (hf : Fits j f) (hg : Fits k g)
    (hjk : -1074 ≤ j + k) : Bounded (j + k + 213) (UnpackedFloat.mul Format.binary64 f g) := by
  match f, g, hf, hg with
  | .zero _, .zero _, _, _ => trivial
  | .zero _, .finite .., _, _ => trivial
  | .finite .., .zero _, _, _ => trivial
  | .finite s m e _, .finite s' m' e' _, ⟨hm, he⟩, ⟨hm', he'⟩ =>
    have hproduct : m * m' < 2 ^ 106 := by
      calc m * m' < 2 ^ 53 * 2 ^ 53 := Nat.mul_lt_mul'' hm hm'
        _ = 2 ^ 106 := by decide
    have hround := bounded_roundWithAccuracy (s * s') hproduct (Int.add_le_add he he') hjk
    exact hround.mono (by omega)

/-- The power of ten by which a word is scaled is one. -/
theorem bounded_mul_one {s s' : Sign} {m b : Nat} {e : Int} (hm : m < 2 ^ 117) (he : e ≤ 0)
    (hb : b = 1) (h : 0 < m) (h' : 0 < b) :
    Bounded 600 (UnpackedFloat.mul Format.binary64 (.finite s m e h) (.finite s' b 0 h')) := by
  subst hb
  rw [← Nat.mul_one m] at hm
  exact (bounded_roundWithAccuracy (s * s') hm (Int.add_le_add_right he 0) (by decide)).mono
    (by decide)

/-- A word is rounded to a bounded double: it is shifted by 52 bits at most. -/
theorem bounded_ofNat {n : Nat} (hn : n < UInt64.size) :
    Bounded 300 (UnpackedFloat.ofNat Format.binary64 n) := by
  unfold UnpackedFloat.ofNat UnpackedFloat.ofInt UnpackedFloat.normalize
  split
  · rename_i hnegative
    have := Int.compare_eq_lt.1 hnegative
    omega
  · trivial
  · have hshift : (0 - Format.binary64.targetExponent (totalExponent n 0)).toNat ≤ 52 := by
      rw [targetExponent_eq, totalExponent]
      omega
    have hmantissa : n <<< (0 - Format.binary64.targetExponent (totalExponent n 0)).toNat <
        2 ^ 116 := by
      rw [Nat.shiftLeft_eq]
      calc n * 2 ^ _ ≤ n * 2 ^ 52 := Nat.mul_le_mul_left n (Nat.pow_le_pow_right (by decide) hshift)
        _ < UInt64.size * 2 ^ 52 := Nat.mul_lt_mul_of_pos_right hn (by decide)
        _ = 2 ^ 116 := by decide
    have hround := bounded_roundWithAccuracy (k := 0) .positive hmantissa
      (e := 0 - (0 - Format.binary64.targetExponent (totalExponent n 0)).toNat) (by omega)
      (by decide)
    exact hround.mono (by decide)

theorem fits_ofUInt64 (u : UInt64) : Fits 300 u.toFloat.toModel.unpack :=
  fits_unpack_pack (bounded_ofNat u.toNat_lt) (by decide) (by decide)

theorem fits_mul {j k : Int} {x y : Float} (hx : Fits j x.toModel.unpack)
    (hy : Fits k y.toModel.unpack) (hjk : -1074 ≤ j + k) (hjk' : j + k ≤ 757) :
    Fits (j + k + 213) (x * y).toModel.unpack :=
  fits_unpack_pack (bounded_mul hx hy hjk) (by omega) (by omega)

theorem isFinite_of_fits {k : Int} {x : Float} (h : Fits k x.toModel.unpack) : x.isFinite := by
  change x.toModel.unpack.isFinite = true
  cases hx : x.toModel.unpack with
  | zero s => rfl
  | finite s m e hm => rfl
  | infinity s => rw [hx] at h; cases h
  | notANumber => rw [hx] at h; cases h

theorem fits_one : Fits 0 (Float.ofScientific 1 false 0).toModel.unpack := by
  decide +kernel

/-- A word is read by rounding it: up to 53 bits as a word, beyond that as a number of any size. -/
theorem fits_ofScientific {n : Nat} (hn : n < UInt64.size) :
    Fits 600 (Float.ofScientific n false 0).toModel.unpack := by
  unfold Float.ofScientific
  split
  · have hone : Fits 0 (Float.exactlyRepresentablePowersOfTen[0]).toModel.unpack := by
      decide +kernel
    exact (fits_mul (fits_ofUInt64 n.toUInt64) hone (by decide) (by decide)).mono (by decide)
  · refine fits_unpack_pack ?_ (by decide) (by decide)
    change Bounded 600 (UnpackedFloat.ofScientific Format.binary64 n 0)
    by_cases hzero : n = 0
    · rw [hzero]
      trivial
    · have hsmall : ¬ (0 : Int) < -((2 ^ Format.binary64.exponentBits : Int) + n.log2) := by
        rw [show (2 ^ Format.binary64.exponentBits : Int) = 2048 by decide]
        omega
      have hmantissa : n <<< Format.binary64.mantissaBits < 2 ^ 117 := by
        have hbits : Format.binary64.mantissaBits = 53 := rfl
        rw [hbits, Nat.shiftLeft_eq]
        calc n * 2 ^ 53 < UInt64.size * 2 ^ 53 := Nat.mul_lt_mul_of_pos_right hn (by decide)
          _ = 2 ^ 117 := by decide
      unfold UnpackedFloat.ofScientific
      rw [dif_neg hzero, if_neg (by decide), if_neg hsmall, if_pos (Int.le_refl 0)]
      exact bounded_mul_one hmantissa (by decide) (Nat.pow_zero 10) _ _

theorem isSome_toFloat?_ofNat {n : Nat} (hn : n < UInt64.size) :
    (Numeral.ofNat n).toFloat?.isSome := by
  have hleading : (Numeral.ofNat n).leading = ⟨n, 0⟩ := by
    change Decimal.shorten n.log2 ⟨n, 0⟩ = _
    cases n.log2 with
    | zero => rfl
    | succ bound => exact if_pos hn
  have hfinite := isFinite_of_fits
    (fits_mul (fits_ofScientific hn) fits_one (by decide) (by decide))
  have hread : (Decimal.mk n 0).toFloat? =
      some (Float.ofScientific n false 0 * Float.ofScientific 1 false 0) := if_pos hfinite
  unfold Numeral.toFloat?
  rw [hleading, hread]
  rfl

end PulseNoise.Number
