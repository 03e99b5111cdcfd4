import PulseNoise.Proofs.Arithmetic

/-!
# Doubles with the other sign

Rounding treats both signs alike. A factor with the other sign gives the product with the other
sign, and so do two summands for the sum. Only a sum of zero forgets its sign: opposite summands
give the positive zero, and so do these with the other signs. As numbers the two zeros are equal, so
that the operations agree with the change of sign as numbers, whether they are finite or not.

* `Alike f g` says that two unpacked doubles are the same up to the sign of a zero.
* `Same x y` says that two doubles are equal as numbers, or that neither is a number.
* `unpack_neg` and `unpack_mul_neg` are exact; `same_neg_add` and `same_neg_sub` hold up to the sign
  of a zero.
-/

namespace PulseNoise.Number

open Float.Model Float.Model.UnpackedFloat

/-! ## Signs -/

section Signs

variable (s t : Sign)

theorem sign_neg_neg : -(-s) = s := by cases s <;> rfl

theorem sign_mul_comm : s * t = t * s := by cases s <;> cases t <;> rfl

theorem sign_mul_neg : s * -t = -(s * t) := by cases s <;> cases t <;> rfl

end Signs

/-! ## Unpacked doubles -/

section Unpacked

variable {f g : UnpackedFloat}

theorem unpacked_neg_neg (f : UnpackedFloat) : f.neg.neg = f := by
  cases f with
  | notANumber => rfl
  | infinity s => exact congrArg UnpackedFloat.infinity (sign_neg_neg s)
  | zero s => exact congrArg UnpackedFloat.zero (sign_neg_neg s)
  | finite s m e hm =>
    change UnpackedFloat.finite (-(-s)) m e hm = _
    rw [sign_neg_neg]

theorem ofMantissa_neg (s : Sign) (m : Nat) (e : Int) :
    (if h : m = 0 then .zero (-s) else .finite (-s) m e (Nat.pos_of_ne_zero h)) =
      UnpackedFloat.neg
        (if h : m = 0 then .zero s else .finite s m e (Nat.pos_of_ne_zero h)) := by
  cases m with
  | zero => rfl
  | succ m => rfl

/-- The sign has no part in rounding. -/
theorem roundWithAccuracy_neg (s : Sign) (m : Nat) (e : Int) (accuracy : Accuracy) :
    roundWithAccuracy Format.binary64 (-s) m e accuracy =
      (roundWithAccuracy Format.binary64 s m e accuracy).neg :=
  ofMantissa_neg s _ _

theorem round_neg (s : Sign) (m : Nat) (e : Int) :
    UnpackedFloat.round Format.binary64 (-s) m e =
      (UnpackedFloat.round Format.binary64 s m e).neg := roundWithAccuracy_neg _ _ _ _

theorem mul_neg_right (f g : UnpackedFloat) :
    UnpackedFloat.mul Format.binary64 f g.neg = (UnpackedFloat.mul Format.binary64 f g).neg := by
  match f, g with
  | .finite s m e hm, .finite s' m' e' hm' =>
    change roundWithAccuracy _ (s * -s') _ _ _ = _
    rw [sign_mul_neg]
    exact roundWithAccuracy_neg _ _ _ _
  | .notANumber, g => rfl
  | f, .notANumber => cases f <;> rfl
  | .infinity s, .infinity s' | .infinity s, .finite s' _ _ _ | .finite s _ _ _, .infinity s' =>
    exact congrArg UnpackedFloat.infinity (sign_mul_neg s s')
  | .infinity _, .zero _ | .zero _, .infinity _ => rfl
  | .zero s, .zero s' | .zero s, .finite s' _ _ _ | .finite s _ _ _, .zero s' =>
    exact congrArg UnpackedFloat.zero (sign_mul_neg s s')

theorem unpacked_mul_comm (f g : UnpackedFloat) :
    UnpackedFloat.mul Format.binary64 f g = UnpackedFloat.mul Format.binary64 g f := by
  match f, g with
  | .finite s m e hm, .finite s' m' e' hm' =>
    change roundWithAccuracy _ (s * s') (m * m') (e + e') .exact = _
    rw [sign_mul_comm, mul_comm, add_comm]
    rfl
  | .notANumber, g => cases g <;> rfl
  | f, .notANumber => cases f <;> rfl
  | .infinity s, .infinity s' | .infinity s, .finite s' _ _ _ | .finite s _ _ _, .infinity s' =>
    exact congrArg UnpackedFloat.infinity (sign_mul_comm s s')
  | .infinity _, .zero _ | .zero _, .infinity _ => rfl
  | .zero s, .zero s' | .zero s, .finite s' _ _ _ | .finite s _ _ _, .zero s' =>
    exact congrArg UnpackedFloat.zero (sign_mul_comm s s')

theorem mul_neg_left (f g : UnpackedFloat) :
    UnpackedFloat.mul Format.binary64 f.neg g = (UnpackedFloat.mul Format.binary64 f g).neg := by
  rw [unpacked_mul_comm, mul_neg_right, unpacked_mul_comm]

/-- The same unpacked double, or two zeros. -/
inductive Alike : UnpackedFloat → UnpackedFloat → Prop
  | refl (f : UnpackedFloat) : Alike f f
  | zeros (s t : Sign) : Alike (.zero s) (.zero t)

theorem alike_of_eq (h : f = g) : Alike f g := h ▸ .refl f

theorem alike_finite (s : Sign) {m n : Nat} {e k : Int} (hm : 0 < m) (hn : 0 < n)
    (h : (compare e k).then (compare m n) = .eq) :
    Alike (.finite s m e hm) (.finite s n k hn) := by
  obtain ⟨hexponent, hmantissa⟩ := Ordering.then_eq_eq.1 h
  obtain rfl : e = k := compare_eq_iff_eq.1 hexponent
  obtain rfl : m = n := compare_eq_iff_eq.1 hmantissa
  exact .refl _

/-- What compares as equal is the same, up to the sign of a zero. -/
theorem alike_of_compare_eq (h : f.compare g = some .eq) : Alike f g := by
  match f, g, h with
  | .zero s, .zero t, _ => exact .zeros s t
  | .infinity .positive, .infinity .positive, _ | .infinity .negative, .infinity .negative, _ =>
    exact .refl _
  | .finite .positive _ _ hm, .finite .positive _ _ hn, h =>
    exact alike_finite .positive hm hn (Option.some.inj h)
  | .finite .negative _ _ hm, .finite .negative _ _ hn, h =>
    exact alike_finite .negative hm hn (Ordering.swap_inj.1 (Option.some.inj h))

theorem alike_iff : Alike f g ↔ f.compare g = some .eq ∨ f.isNaN = true ∧ g.isNaN = true := by
  constructor
  · rintro (f | ⟨s, t⟩)
    · cases f with
      | notANumber => exact .inr ⟨rfl, rfl⟩
      | zero s => exact .inl rfl
      | infinity s => cases s <;> exact .inl rfl
      | finite s m e hm =>
        have hself : (compare e e).then (compare m m) = .eq :=
          Ordering.then_eq_eq.2 ⟨compare_eq_iff_eq.2 rfl, compare_eq_iff_eq.2 rfl⟩
        cases s with
        | positive => exact .inl (congrArg some hself)
        | negative => exact .inl (congrArg (some <| Ordering.swap ·) hself)
    · exact .inl rfl
  · rintro (h | ⟨hf, hg⟩)
    · exact alike_of_compare_eq h
    · cases f with
      | notANumber =>
        cases g with
        | notANumber => exact .refl _
        | zero s | infinity s | finite s m e hm => cases hg
      | zero s | infinity s | finite s m e hm => cases hf

namespace Alike

theorem symm (h : Alike f g) : Alike g f := by
  cases h with
  | refl => exact .refl _
  | zeros s t => exact .zeros t s

theorem trans {f g k : UnpackedFloat} (h : Alike f g) (h' : Alike g k) : Alike f k := by
  cases h with
  | refl => exact h'
  | zeros s t =>
    cases h' with
    | refl => exact .zeros s t
    | zeros _ t' => exact .zeros s t'

theorem neg (h : Alike f g) : Alike f.neg g.neg := by
  cases h with
  | refl => exact .refl _
  | zeros s t => exact .zeros _ _

/-- A zero of either sign leaves what is not a zero. -/
theorem add {f' g' : UnpackedFloat} (h : Alike f f') (h' : Alike g g') :
    Alike (UnpackedFloat.add Format.binary64 f g) (UnpackedFloat.add Format.binary64 f' g') := by
  cases h with
  | refl =>
    cases h' with
    | refl => exact .refl _
    | zeros s t =>
      cases f with
      | zero s' => cases s' <;> cases s <;> cases t <;> exact .zeros _ _
      | notANumber | infinity s' | finite s' m e hm => exact .refl _
  | zeros s t =>
    cases h' with
    | refl =>
      cases g with
      | zero s' => cases s' <;> cases s <;> cases t <;> exact .zeros _ _
      | notANumber | infinity s' | finite s' m e hm => exact .refl _
    | zeros s' t' => cases s <;> cases t <;> cases s' <;> cases t' <;> exact .zeros _ _

end Alike

/-- A sum of zero has the same sign on both sides, all others have opposite signs. -/
theorem alike_normalize_neg (m e : Int) :
    Alike (UnpackedFloat.normalize Format.binary64 (-m) e .positive)
      (UnpackedFloat.normalize Format.binary64 m e .positive).neg := by
  unfold UnpackedFloat.normalize
  rcases lt_trichotomy m 0 with hneg | rfl | hpos
  · rw [Int.compare_eq_lt.2 hneg, Int.compare_eq_gt.2 (Int.neg_pos_of_neg hneg)]
    exact alike_of_eq (round_neg .negative _ e)
  · exact .zeros _ _
  · rw [Int.compare_eq_gt.2 hpos, Int.compare_eq_lt.2 (Int.neg_neg_of_pos hpos)]
    change Alike (UnpackedFloat.round _ _ (-(-m)).toNat e) _
    rw [neg_neg]
    exact alike_of_eq (round_neg .positive _ e)

theorem alike_add_neg (f g : UnpackedFloat) :
    Alike (UnpackedFloat.add Format.binary64 f.neg g.neg)
      (UnpackedFloat.add Format.binary64 f g).neg := by
  match f, g with
  | .notANumber, g => exact .refl _
  | f, .notANumber => cases f <;> exact .refl _
  | .infinity s, .infinity s' => cases s <;> cases s' <;> exact .refl _
  | .zero s, .zero s' => cases s <;> cases s' <;> exact .zeros _ _
  | .infinity _, .zero _ | .infinity _, .finite _ _ _ _ | .zero _, .infinity _
  | .finite _ _ _ _, .infinity _ | .zero _, .finite _ _ _ _ | .finite _ _ _ _, .zero _ =>
    exact .refl _
  | .finite s m e hm, .finite s' m' e' hm' =>
    have hsum := alike_normalize_neg (s.apply (decreaseExponent m e (min e e')).1 +
      s'.apply (decreaseExponent m' e' (min e e')).1) (min e e')
    rw [neg_add, ← apply_neg, ← apply_neg] at hsum
    exact hsum

/-! ## Packing -/

theorem unpack_packComponents_neg (s : Sign) (exponent : BitVec 11) (mantissa : BitVec 52) :
    UnpackedFloat.unpack Format.binary64
        (packComponents Format.binary64 (-s) exponent mantissa) =
      (UnpackedFloat.unpack Format.binary64
        (packComponents Format.binary64 s exponent mantissa)).neg := by
  rw [unpack_packComponents, unpack_packComponents]
  by_cases hones : exponent = -1#11
  · rw [if_pos hones, if_pos hones]
    split <;> rfl
  rw [if_neg hones, if_neg hones]
  by_cases hzero : exponent = 0#11
  · rw [if_pos hzero, if_pos hzero]
    by_cases hmantissa : mantissa = 0#52
    · rw [dif_pos hmantissa, dif_pos hmantissa]
      rfl
    · rw [dif_neg hmantissa, dif_neg hmantissa]
      rfl
  · rw [if_neg hzero, if_neg hzero]
    rfl

/-- The sign has no part in packing, also where the exponent is too large or the mantissa too
short. -/
theorem unpack_pack_neg (f : UnpackedFloat) :
    UnpackedFloat.unpack Format.binary64 (UnpackedFloat.pack Format.binary64 f.neg) =
      (UnpackedFloat.unpack Format.binary64 (UnpackedFloat.pack Format.binary64 f)).neg := by
  cases f with
  | notANumber => rfl
  | infinity s | zero s => exact unpack_packComponents_neg s _ _
  | finite s m e hm =>
    change UnpackedFloat.unpack _ (UnpackedFloat.pack _ (.finite (-s) m e hm)) = _
    rw [pack_finite, pack_finite]
    split_ifs <;> exact unpack_packComponents_neg s _ _

theorem Alike.unpack_pack (h : Alike f g) :
    Alike (UnpackedFloat.unpack Format.binary64 (UnpackedFloat.pack Format.binary64 f))
      (UnpackedFloat.unpack Format.binary64 (UnpackedFloat.pack Format.binary64 g)) := by
  cases h with
  | refl => exact .refl _
  | zeros s t => cases s <;> cases t <;> exact .zeros _ _

/-- A double is packed as it was unpacked. -/
theorem unpack_pack_unpack (x : Float) :
    UnpackedFloat.unpack Format.binary64 (UnpackedFloat.pack Format.binary64 x.toModel.unpack) =
      x.toModel.unpack := by
  cases hx : x.toModel.unpack with
  | notANumber => rfl
  | infinity s => cases s <;> rfl
  | zero s | finite s m e hm =>
    have hfinite : x.isFinite = true := by
      change x.toModel.unpack.isFinite = true
      rw [hx]
      rfl
    rw [← hx]
    exact unpack_pack (isRounded_unpack hfinite) (fits_unpack_of_isFinite hfinite)

end Unpacked

/-! ## Doubles -/

section Doubles

variable {x y z u v : Float}

theorem unpack_neg (x : Float) : (-x).toModel.unpack = x.toModel.unpack.neg := by
  change UnpackedFloat.unpack Format.binary64 (UnpackedFloat.pack _ x.toModel.unpack.neg) = _
  rw [unpack_pack_neg, unpack_pack_unpack]

theorem unpack_mul_neg (x y : Float) : (x * -y).toModel.unpack = (x * y).toModel.unpack.neg := by
  change UnpackedFloat.unpack Format.binary64
    (UnpackedFloat.pack _ (UnpackedFloat.mul _ x.toModel.unpack (-y).toModel.unpack)) = _
  rw [unpack_neg, mul_neg_right, unpack_pack_neg]
  rfl

theorem double_mul_comm (x y : Float) : x * y = y * x :=
  congrArg (fun f => Float.ofModel (.pack f)) (unpacked_mul_comm x.toModel.unpack y.toModel.unpack)

theorem double_neg_mul_neg (x y : Float) : -x * -y = x * y := by
  change Float.ofModel (.pack (UnpackedFloat.mul _ (-x).toModel.unpack (-y).toModel.unpack)) = _
  rw [unpack_neg, unpack_neg, mul_neg_right, mul_neg_left, unpacked_neg_neg]
  rfl

theorem double_sub_eq_add_neg (x y : Float) : x - y = x + -y := by
  change Float.ofModel (.pack (UnpackedFloat.sub _ x.toModel.unpack y.toModel.unpack)) =
    Float.ofModel (.pack (UnpackedFloat.add _ x.toModel.unpack (-y).toModel.unpack))
  rw [unpack_neg, sub_eq_add]

/-- Two doubles that are the same number, or both not a number. -/
def Same (x y : Float) : Prop := Alike x.toModel.unpack y.toModel.unpack

theorem same_iff : Same x y ↔ (x == y) = true ∨ x.isNaN = true ∧ y.isNaN = true := by
  rw [beq_iff_compare]
  exact alike_iff

/-- What is finite is the same as its equals only. -/
theorem Same.beq (h : Same x y) (hx : x.isFinite = true) : (x == y) = true := by
  refine (same_iff.1 h).resolve_right fun hnan => ?_
  have hnot : x.toModel.unpack.isNaN = true := hnan.1
  change x.toModel.unpack.isFinite = true at hx
  revert hnot hx
  cases x.toModel.unpack <;> nofun

namespace Same

theorem refl (x : Float) : Same x x := Alike.refl _

theorem trans (h : Same x y) (h' : Same y z) : Same x z := Alike.trans h h'

theorem neg (h : Same x y) : Same (-x) (-y) := by
  unfold Same
  rw [unpack_neg, unpack_neg]
  exact Alike.neg h

theorem add (h : Same x u) (h' : Same y v) : Same (x + y) (u + v) := (Alike.add h h').unpack_pack

theorem sub (h : Same x u) (h' : Same y v) : Same (x - y) (u - v) := by
  rw [double_sub_eq_add_neg, double_sub_eq_add_neg]
  exact h.add h'.neg

end Same

theorem same_neg_neg (x : Float) : Same (-(-x)) x := by
  unfold Same
  rw [unpack_neg, unpack_neg, unpacked_neg_neg]
  exact .refl _

theorem same_neg_add (x y : Float) : Same (-(x + y)) (-x + -y) := by
  have hsum := (alike_add_neg x.toModel.unpack y.toModel.unpack).unpack_pack.symm
  rw [unpack_pack_neg, ← unpack_neg, ← unpack_neg] at hsum
  unfold Same
  rw [unpack_neg]
  exact hsum

theorem same_neg_sub (x y : Float) : Same (-(x - y)) (-x - -y) := by
  rw [double_sub_eq_add_neg, double_sub_eq_add_neg]
  exact same_neg_add x (-y)

theorem same_neg_mul (x y : Float) : Same (-(x * y)) (x * -y) := by
  unfold Same
  rw [unpack_neg, unpack_mul_neg]
  exact .refl _

theorem same_neg_mul_left (x y : Float) : Same (-(x * y)) (-x * y) := by
  rw [double_mul_comm x, double_mul_comm (-x)]
  exact same_neg_mul y x

end Doubles

end PulseNoise.Number
