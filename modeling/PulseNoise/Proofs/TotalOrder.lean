import PulseNoise.Number.Order
import PulseNoise.Proofs.Value

/-!
# The total order of doubles

The total order compares doubles by their bits, the numeric order by the numbers that they stand
for. On finite doubles the first one refines the second: without its sign, a double is greater as
its bits are, so that the two orders differ on the two zeros alone.

* `magnitudeValue` is the number that the bits of a double stand for without its sign, and
  `magnitudeValue_lt` says that it grows with them.
* `value_le_of_totalLE` says that the total order is one of the numbers.
* `eq_of_totalLE` says that the total order tells all doubles apart.
-/

namespace PulseNoise.Number

open Float.Model Float.Model.UnpackedFloat

/-! ## Bits without a sign -/

/-- The mantissa that bits stand for: subnormal numbers have no bit above those written. -/
def mantissaOfBits (k : Nat) : Nat := if k < 4503599627370496 then k
  else 4503599627370496 + k % 4503599627370496

def exponentOfBits (k : Nat) : Int := max (k / 4503599627370496 : Nat) 1 - 1075

/-- The number that bits without a sign stand for. -/
def magnitudeValue (k : Nat) : Rat := mantissaOfBits k * 2 ^ exponentOfBits k

theorem canonical_ofBits (k : Nat) : Canonical (mantissaOfBits k) (exponentOfBits k) := by
  unfold mantissaOfBits exponentOfBits
  refine ⟨?_, ?_, ?_⟩
  · split <;> omega
  · omega
  · split <;> omega

/-- Greater bits have a greater exponent, or the same exponent and a greater mantissa. -/
theorem magnitudeValue_lt {j k : Nat} (h : j < k) : magnitudeValue j < magnitudeValue k := by
  unfold magnitudeValue
  have hexponent : exponentOfBits j ≤ exponentOfBits k := by
    unfold exponentOfBits
    omega
  rcases hexponent.lt_or_eq with hlt | heq
  · exact (canonical_ofBits j).mul_lt (canonical_ofBits k) hlt
  · have hmantissa : mantissaOfBits j < mantissaOfBits k := by
      unfold mantissaOfBits
      unfold exponentOfBits at heq
      split <;> split <;> omega
    rw [heq]
    gcongr

theorem magnitudeValue_zero : magnitudeValue 0 = 0 := by
  simp [magnitudeValue, mantissaOfBits]

theorem magnitudeValue_nonneg (k : Nat) : 0 ≤ magnitudeValue k := by
  unfold magnitudeValue
  positivity

/-! ## The parts of a double -/

section Parts

variable (b : BitVec Format.binary64.numBits)

theorem toNat_unpackMantissa :
    (UnpackedFloat.unpackMantissa b).toNat = b.toNat % 4503599627370496 := by
  change (BitVec.extractLsb 51 0 b).toNat = _
  rw [BitVec.extractLsb_toNat]
  rfl

theorem toNat_unpackExponent :
    (UnpackedFloat.unpackExponent b).toNat = b.toNat / 4503599627370496 % 2048 := by
  change (BitVec.extractLsb 62 52 b).toNat = _
  rw [BitVec.extractLsb_toNat, Nat.shiftRight_eq_div_pow]

theorem ofBitVec_unpackSign :
    Sign.ofBitVec (UnpackedFloat.unpackSign b) =
      if signBit ≤ b.toNat then .negative else .positive := by
  have hlt : b.toNat < 18446744073709551616 := b.isLt
  have hsign : (UnpackedFloat.unpackSign b).toNat = b.toNat / signBit % 2 := by
    change (BitVec.extractLsb 63 63 b).toNat = _
    rw [BitVec.extractLsb_toNat, Nat.shiftRight_eq_div_pow]
    rfl
  unfold signBit at *
  unfold Sign.ofBitVec
  by_cases hneg : 9223372036854775808 ≤ b.toNat
  · have hone : UnpackedFloat.unpackSign b ≠ 0#1 := by
      intro hzero
      rw [hzero] at hsign
      change 0 = _ at hsign
      omega
    rw [if_pos hneg, if_neg hone]
  · have hzero : UnpackedFloat.unpackSign b = 0#1 := by
      apply BitVec.eq_of_toNat_eq
      change _ = 0
      omega
    rw [if_neg hneg, if_pos hzero]

/-- A finite double stands for its sign times the number of its other bits. -/
theorem unpackedValue_unpack (h : (UnpackedFloat.unpack Format.binary64 b).isFinite = true) :
    unpackedValue (UnpackedFloat.unpack Format.binary64 b) =
      (Sign.ofBitVec (UnpackedFloat.unpackSign b)).apply (mantissaOfBits (b.toNat % signBit)) *
        2 ^ exponentOfBits (b.toNat % signBit) := by
  have hmantissaBits := toNat_unpackMantissa b
  have hexponentBits := toNat_unpackExponent b
  unfold UnpackedFloat.unpack at *
  dsimp only at *
  by_cases hspecial : UnpackedFloat.unpackExponent b = -1#_
  · rw [if_pos hspecial] at h
    split at h <;> cases h
  rw [if_neg hspecial, bias_eq]
  by_cases hexponent : UnpackedFloat.unpackExponent b = 0#_
  · rw [if_pos hexponent]
    have hzero : (UnpackedFloat.unpackExponent b).toNat = 0 := by rw [hexponent]; rfl
    have hm : mantissaOfBits (b.toNat % signBit) = (UnpackedFloat.unpackMantissa b).toNat := by
      unfold mantissaOfBits signBit
      split <;> omega
    have he : exponentOfBits (b.toNat % signBit) =
        ((UnpackedFloat.unpackExponent b).toNat : Int) - 1075 + 1 := by
      unfold exponentOfBits signBit
      omega
    rw [hm, he]
    by_cases hmantissa : UnpackedFloat.unpackMantissa b = 0#_
    · rw [dif_pos hmantissa, hmantissa]
      have hzeroApply (s : Sign) : s.apply (0#52).toNat = 0 := by cases s <;> rfl
      rw [hzeroApply, Int.cast_zero, zero_mul]
      rfl
    · rw [dif_neg hmantissa]
      rfl
  · rw [if_neg hexponent]
    have hpos : (UnpackedFloat.unpackExponent b).toNat ≠ 0 := by
      intro hzero
      exact hexponent (BitVec.eq_of_toNat_eq hzero)
    have hm : mantissaOfBits (b.toNat % signBit) =
        (1#1 ++ UnpackedFloat.unpackMantissa b).toNat := by
      have happend : (1#1 ++ UnpackedFloat.unpackMantissa b).toNat =
          4503599627370496 + (UnpackedFloat.unpackMantissa b).toNat := by
        rw [BitVec.toNat_append]
        exact (Nat.shiftLeft_add_eq_or_of_lt (UnpackedFloat.unpackMantissa b).isLt _).symm
      rw [happend]
      unfold mantissaOfBits signBit
      split <;> omega
    have he : exponentOfBits (b.toNat % signBit) =
        ((UnpackedFloat.unpackExponent b).toNat : Int) - 1075 := by
      unfold exponentOfBits signBit
      omega
    rw [hm, he]
    rfl

end Parts

/-! ## The two orders -/

variable {x y z : Float}

theorem value_eq_magnitudeValue (hx : x.isFinite = true) :
    value x = if signBit ≤ x.toBits.toNat then -magnitudeValue (x.toBits.toNat % signBit)
      else magnitudeValue (x.toBits.toNat % signBit) := by
  refine (unpackedValue_unpack x.toBits.toBitVec hx).trans ?_
  rw [ofBitVec_unpackSign]
  change ((if signBit ≤ x.toBits.toNat then Sign.negative else Sign.positive).apply _ : Rat) * _ = _
  split
  · simp [Sign.apply, magnitudeValue]
  · rfl

theorem orderKey_eq (x : Float) :
    orderKey x = if signBit ≤ x.toBits.toNat then 18446744073709551615 - x.toBits.toNat
      else signBit + x.toBits.toNat := rfl

theorem totalLE_iff : totalLE x y = true ↔ orderKey x ≤ orderKey y := decide_eq_true_iff

/-- The total order of finite doubles is one of the numbers that they stand for. -/
theorem value_le_of_totalLE (hx : x.isFinite = true) (hy : y.isFinite = true)
    (h : totalLE x y = true) : value x ≤ value y := by
  have hle {j k : Nat} (hjk : j ≤ k) : magnitudeValue j ≤ magnitudeValue k := by
    rcases hjk.lt_or_eq with hlt | rfl
    · exact (magnitudeValue_lt hlt).le
    · exact le_rfl
  have hxlt := x.toBits.toNat_lt
  have hylt := y.toBits.toNat_lt
  rw [totalLE_iff, orderKey_eq, orderKey_eq] at h
  rw [value_eq_magnitudeValue hx, value_eq_magnitudeValue hy]
  unfold signBit at *
  split <;> split <;> simp only [*, if_true, if_false] at h
  · exact neg_le_neg (hle (by omega))
  · exact (neg_nonpos.2 (magnitudeValue_nonneg _)).trans (magnitudeValue_nonneg _)
  · omega
  · exact hle (by omega)

theorem totalLE_trans (hxy : totalLE x y = true) (hyz : totalLE y z = true) :
    totalLE x z = true := by
  rw [totalLE_iff] at *
  exact hxy.trans hyz

theorem totalLE_total (x y : Float) : (totalLE x y || totalLE y x) = true := by
  rw [Bool.or_eq_true_iff, totalLE_iff, totalLE_iff]
  exact le_total _ _

theorem totalLE_refl (x : Float) : totalLE x x = true := totalLE_iff.2 le_rfl

theorem totalLE_of_value_lt (hx : x.isFinite = true) (hy : y.isFinite = true)
    (h : value x < value y) : totalLE x y = true := by
  rcases Bool.or_eq_true_iff.1 (totalLE_total x y) with hle | hge
  · exact hle
  · exact absurd (value_le_of_totalLE hy hx hge) (not_le.2 h)

/-- The total order tells all doubles apart. -/
theorem eq_of_totalLE (hxy : totalLE x y = true) (hyx : totalLE y x = true) : x = y := by
  have hxlt := x.toBits.toNat_lt
  have hylt := y.toBits.toNat_lt
  have hbits : x.toBits.toNat = y.toBits.toNat := by
    have hkey := le_antisymm (totalLE_iff.1 hxy) (totalLE_iff.1 hyx)
    rw [orderKey_eq, orderKey_eq] at hkey
    unfold signBit at hkey
    split at hkey <;> split at hkey <;> omega
  obtain ⟨⟨xbits, xvalid⟩⟩ := x
  obtain ⟨⟨ybits, yvalid⟩⟩ := y
  obtain rfl : xbits = ybits := UInt64.toNat_inj.1 hbits
  rfl

/-- Of all doubles that are zero, `-0.0` comes first. -/
theorem totalLE_negZero (hx : x.isFinite = true) (hzero : value x = 0) :
    totalLE (-0.0) x = true := by
  have hkey : orderKey (-0.0) = signBit - 1 := by decide +kernel
  rw [totalLE_iff, hkey, orderKey_eq]
  rw [value_eq_magnitudeValue hx] at hzero
  split
  · rename_i hneg
    rw [if_pos hneg] at hzero
    have hrest : x.toBits.toNat % signBit = 0 := by
      by_contra hpos
      have := magnitudeValue_lt (Nat.pos_of_ne_zero hpos)
      rw [magnitudeValue_zero] at this
      linarith
    have hlt := x.toBits.toNat_lt
    unfold signBit at *
    omega
  · unfold signBit
    omega

end PulseNoise.Number
