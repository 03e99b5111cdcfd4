import PulseNoise.Proofs.Inverse
import PulseNoise.Proofs.TotalOrder
import PulseNoise.Sampling.Sampler

/-!
# Seeded draws as one stream

A seeded sampler looks at its parameters before it draws, so that a draw with refused parameters
takes nothing from the stream. The others take their samples one after the other, and it does not
matter how many of them are asked for at a time.

The constructor of uniform distributions asserts what it is given: finite ends in the right order,
and a finite width, which it then lowers bit by bit until no sample can reach the upper end. None of
these assertions fails after the check of the parameters.

* `DistributionKind.Refuses` lists the parameters that are refused, and
  `DistributionKind.distribution_eq_error_iff` says that there are no others.
* `Distribution.uniformAsserted_eq` says that no assertion fails.
* `drawAll` is a number of draws one after another, `drawAll_eq` what it leaves behind.
* `draws_one_stream` draws the conclusions for all draws of a seeded sampler.
-/

namespace PulseNoise

open Float.Model Float.Model.UnpackedFloat

namespace Number

variable {x y : Float}

/-! ## What is not finite -/

theorem not_isFinite_iff : ¬ x.isFinite = true ↔ x.isNaN = true ∨ x.isInf = true := by
  change ¬ x.toModel.unpack.isFinite = true ↔
    x.toModel.unpack.isNaN = true ∨ x.toModel.unpack.isInf = true
  cases x.toModel.unpack with
  | notANumber => exact iff_of_true nofun (.inl rfl)
  | infinity s => exact iff_of_true nofun (.inr rfl)
  | zero s | finite s m e hm =>
    exact iff_of_false (not_not_intro rfl) (by rintro (h | h) <;> cases h)

/-! ## Doubles with smaller bits -/

theorem isFinite_unpack_iff (b : BitVec Format.binary64.numBits) :
    (UnpackedFloat.unpack Format.binary64 b).isFinite = true ↔
      b.toNat / 4503599627370496 % 2048 ≠ 2047 := by
  rw [← toNat_unpackExponent]
  have hones : UnpackedFloat.unpackExponent b = -1#_ ↔
      (UnpackedFloat.unpackExponent b).toNat = 2047 :=
    ⟨fun h => congrArg BitVec.toNat h, fun h => BitVec.eq_of_toNat_eq h⟩
  unfold UnpackedFloat.unpack
  dsimp only
  rw [← not_iff_not, not_not, ← hones]
  by_cases hspecial : UnpackedFloat.unpackExponent b = -1#_
  · rw [if_pos hspecial]
    refine iff_of_true ?_ hspecial
    split <;> nofun
  · rw [if_neg hspecial]
    refine iff_of_false (not_not_intro ?_) hspecial
    by_cases hexponent : UnpackedFloat.unpackExponent b = 0#_
    · rw [if_pos hexponent]
      by_cases hmantissa : UnpackedFloat.unpackMantissa b = 0#_
      · rw [dif_pos hmantissa]
        rfl
      · rw [dif_neg hmantissa]
        rfl
    · rw [if_neg hexponent]
      rfl

/-- Bits below those of a finite double without a sign are those of a finite double without a
sign. -/
theorem nonneg_ofBits {k : Nat} (hx : x.isFinite = true) (hsign : x.toBits.toNat < signBit)
    (hk : k ≤ x.toBits.toNat) :
    (Float.ofBits (.ofNat k)).isFinite = true ∧ 0 ≤ value (Float.ofBits (.ofNat k)) := by
  have hbits : (UInt64.ofNat k).toBitVec.toNat = k := by
    have hlt := x.toBits.toNat_lt
    exact Nat.mod_eq_of_lt (by omega)
  have hexponent := (isFinite_unpack_iff x.toBits.toBitVec).1 hx
  have hfinite : (UnpackedFloat.unpack Format.binary64 (UInt64.ofNat k).toBitVec).isFinite =
      true := by
    rw [isFinite_unpack_iff, hbits]
    change x.toBits.toNat / _ % _ ≠ _ at hexponent
    unfold signBit at hsign
    omega
  have hunpack : (Float.ofBits (.ofNat k)).toModel.unpack =
      UnpackedFloat.unpack Format.binary64 (UInt64.ofNat k).toBitVec := by
    obtain ⟨hrounded, hfits⟩ := isRounded_and_fits_unpackBits hfinite
    exact unpack_pack hrounded hfits
  constructor
  · change (Float.ofBits (.ofNat k)).toModel.unpack.isFinite = true
    rw [hunpack]
    exact hfinite
  · rw [value, hunpack, unpackedValue_unpack _ hfinite, ofBitVec_unpackSign, hbits,
      if_neg (by omega)]
    exact magnitudeValue_nonneg _

/-- A positive double has no sign bit. -/
theorem toBits_lt_signBit (hx : x.isFinite = true) (hpos : 0 < value x) :
    x.toBits.toNat < signBit := by
  by_contra hsign
  rw [value_eq_magnitudeValue hx, if_pos (not_lt.1 hsign)] at hpos
  linarith [magnitudeValue_nonneg (x.toBits.toNat % signBit)]

end Number

open Number

namespace Sampling

/-! ## Refused parameters -/

namespace Parameters

def mean (parameters : Parameters) : Float := parameters.getD "loc" defaultMean

def spread (parameters : Parameters) : Float := parameters.getD "scale" defaultSpread

def low (parameters : Parameters) : Float := parameters.getD "low" defaultLow

def high (parameters : Parameters) : Float := parameters.getD "high" defaultHigh

end Parameters

/-- Why parameters are not those of a distribution. Of NaN, every comparison is false and every
difference is NaN again. -/
inductive DistributionKind.Refuses (parameters : Parameters) : DistributionKind → Error → Prop
  | negative (h : parameters.spread < 0.0) :
    Refuses parameters .normal (.invalidArgument (.negativeSpread parameters.spread))
  | infinite (hsign : ¬ parameters.spread < 0.0)
    (h : parameters.spread.isNaN = true ∨ parameters.spread.isInf = true) :
    Refuses parameters .normal
      (.invalidArgument (.infiniteSpread parameters.mean parameters.spread))
  | emptyRange (h : ¬ parameters.low < parameters.high ∨
      ¬ (parameters.high - parameters.low).isFinite = true) :
    Refuses parameters .uniform (.invalidArgument (.emptyRange parameters.low parameters.high))

variable {parameters : Parameters} {kind : DistributionKind} {low high : Float} {e : Error}

/-- What is refused is the negation of the order that uniform distributions need: when the width is
finite, so are both ends, and they are in one order or the other. -/
theorem refused_range_iff :
    (high ≤ low || !(high - low).isFinite) = true ↔
      ¬ low < high ∨ ¬ (high - low).isFinite = true := by
  rw [Bool.or_eq_true_iff, Bool.not_eq_true', ← Bool.not_eq_true, decide_eq_true_iff]
  by_cases hwidth : (high - low).isFinite = true
  · obtain ⟨hhigh, hlow⟩ := isFinite_of_sub hwidth
    rw [or_iff_left (not_not_intro hwidth), or_iff_left (not_not_intro hwidth),
      le_iff_value_le hhigh hlow, lt_iff_value_lt hlow hhigh, not_lt]
  · exact iff_of_true (.inr hwidth) (.inr hwidth)

/-- A sampler refuses the parameters that are listed, and no others. -/
theorem DistributionKind.distribution_eq_error_iff :
    kind.distribution parameters = .error e ↔ kind.Refuses parameters e := by
  constructor
  · intro h
    cases kind with
    | normal =>
      change Distribution.normal? parameters.mean parameters.spread = _ at h
      unfold Distribution.normal? at h
      split at h
      · next hsign =>
        cases h
        exact .negative hsign
      · next hsign =>
        split at h
        · next hfinite =>
          cases h
          rw [Bool.not_eq_true', ← Bool.not_eq_true] at hfinite
          exact .infinite hsign (not_isFinite_iff.1 hfinite)
        · cases h
    | uniform =>
      change Distribution.uniform? parameters.low parameters.high = _ at h
      unfold Distribution.uniform? at h
      split at h
      · next hrange =>
        cases h
        exact .emptyRange (refused_range_iff.1 hrange)
      · cases h
  · intro h
    cases h with
    | negative hsign => exact if_pos hsign
    | infinite hsign h =>
      have hfinite : (!parameters.spread.isFinite) = true := by
        rw [Bool.not_eq_true', ← Bool.not_eq_true]
        exact not_isFinite_iff.2 h
      exact (if_neg hsign).trans (if_pos hfinite)
    | emptyRange h => exact if_pos (refused_range_iff.2 h)

/-! ## Assertions of the uniform distribution -/

/-- The loop that lowers a width by its bits, down to the last width at which no sample reaches the
upper end. It has no result when it would go below the bits of zero. -/
def fitWidth? (low high : Float) : Nat → Option Float
  | 0 =>
    if high ≤ 0.0 * (1.0 - Float.ofBits 0x3cb0000000000000) + low then none
    else some 0.0
  | bits + 1 =>
    let width := Float.ofBits (UInt64.ofNat (bits + 1))
    if high ≤ width * (1.0 - Float.ofBits 0x3cb0000000000000) + low then fitWidth? low high bits
    else some width

/-- The constructor of uniform distributions with its assertions: it has no result when one of
them fails. -/
def Distribution.uniformAsserted (low high : Float) : Option Distribution :=
  if low.isFinite && high.isFinite && low < high && (high - low).isFinite then
    match fitWidth? low high (high - low).toBits.toNat with
    | some width => if 0.0 ≤ width then some (.uniform low width) else none
    | none => none
  else none

/-- The distribution of a kind, by the check of the parameters and then the constructor; there is
no result when an assertion of the constructor fails. -/
def DistributionKind.distributionAsserted (kind : DistributionKind) (parameters : Parameters) :
    Option (Except Error Distribution) :=
  match kind with
  | normal => some (Distribution.normal? parameters.mean parameters.spread)
  | uniform =>
    if parameters.high ≤ parameters.low || !(parameters.high - parameters.low).isFinite then
      some (.error (.invalidArgument (.emptyRange parameters.low parameters.high)))
    else .ok <$> Distribution.uniformAsserted parameters.low parameters.high

/-- A width of zero leaves all samples at the lower end, so that the loop stops there. -/
theorem fitWidth?_eq (hlow : low.isFinite = true) (hhigh : high.isFinite = true)
    (hlt : value low < value high) (bits : Nat) :
    fitWidth? low high bits = some (fitWidth low high bits) := by
  induction bits with
  | zero =>
    have hfactor : (1.0 - Float.ofBits 0x3cb0000000000000).isFinite = true := rfl
    have hlowest : Representable (0 + value low) := by
      rw [zero_add]
      exact (stands_value hlow).representable
    have hsample :=
      (stands_zero.zero_mul (stands_value hfactor)).add (stands_value hlow) hlowest
    have hstop : ¬ high ≤ 0.0 * (1.0 - Float.ofBits 0x3cb0000000000000) + low := by
      rw [le_iff_value_le hhigh hsample.isFinite, hsample.value_eq, zero_add]
      exact not_le.2 hlt
    exact if_neg hstop
  | succ bits ih =>
    unfold fitWidth? fitWidth
    rw [ih]
    dsimp only
    split <;> rfl

/-- The loop goes through widths without a sign only. -/
theorem zero_le_fitWidth {x : Float} (hx : x.isFinite = true) (hsign : x.toBits.toNat < signBit)
    {bits : Nat} (hbits : bits ≤ x.toBits.toNat) : 0.0 ≤ fitWidth low high bits := by
  induction bits with
  | zero => exact (le_iff_value_le stands_zero.isFinite stands_zero.isFinite).2 le_rfl
  | succ bits ih =>
    unfold fitWidth
    dsimp only
    split
    · exact ih (by omega)
    · obtain ⟨hfinite, hnonneg⟩ := nonneg_ofBits hx hsign hbits
      rw [le_iff_value_le stands_zero.isFinite hfinite, stands_zero.value_eq]
      exact hnonneg

/-- After the check of the parameters no assertion of the constructor fails. -/
theorem Distribution.uniformAsserted_eq (h : low < high)
    (hwidth : (high - low).isFinite = true) :
    uniformAsserted low high =
      some (.uniform low (fitWidth low high (high - low).toBits.toNat)) := by
  obtain ⟨hhigh, hlow⟩ := isFinite_of_sub hwidth
  have hlt := (lt_iff_value_lt hlow hhigh).1 h
  have hsign := toBits_lt_signBit hwidth (value_sub_pos hlow hhigh hlt hwidth)
  have hasserted : (low.isFinite && high.isFinite && low < high && (high - low).isFinite) =
      true := by
    rw [hlow, hhigh, hwidth, decide_eq_true h]
    rfl
  unfold uniformAsserted
  rw [if_pos hasserted, fitWidth?_eq hlow hhigh hlt]
  exact if_pos (zero_le_fitWidth hwidth hsign le_rfl)

theorem DistributionKind.distributionAsserted_eq (kind : DistributionKind)
    (parameters : Parameters) :
    kind.distributionAsserted parameters = some (kind.distribution parameters) := by
  cases kind with
  | normal => rfl
  | uniform =>
    change _ = some (Distribution.uniform? parameters.low parameters.high)
    unfold distributionAsserted Distribution.uniform?
    dsimp only
    split
    · rfl
    · next hrange =>
      obtain ⟨horder, hwidth⟩ := not_or.1 (mt refused_range_iff.2 hrange)
      rw [Distribution.uniformAsserted_eq (not_not.1 horder) (not_not.1 hwidth)]
      rfl

/-! ## Draws one after another -/

variable {d : Distribution}

theorem drawAction_of_error (h : kind.distribution parameters = .error e) (size : Nat)
    (g : Generator) : drawAction kind parameters size g = ⟨.error e, g, []⟩ := by
  unfold drawAction drawFrom
  rw [h]

theorem drawAction_of_ok (h : kind.distribution parameters = .ok d) (size : Nat) (g : Generator) :
    drawAction kind parameters size g = ⟨.ok (d.samples size g).1, (d.samples size g).2, []⟩ := by
  unfold drawAction drawFrom
  rw [h]

/-- The answers of draws one after another, and the generator after them. A refusal does not end
the run. -/
def drawAll (kind : DistributionKind) (requests : List (Parameters × Nat)) :
    Generator → List (Except Error (List Float)) × Generator :=
  Action.inTurn (requests.map fun r => drawAction kind r.1 r.2)

theorem drawAll_cons (r : Parameters × Nat) (requests : List (Parameters × Nat)) (g : Generator) :
    drawAll kind (r :: requests) g =
      ((drawAction kind r.1 r.2 g).result ::
        (drawAll kind requests (drawAction kind r.1 r.2 g).state).1,
      (drawAll kind requests (drawAction kind r.1 r.2 g).state).2) :=
  Action.inTurn_cons ⟨rfl, rfl⟩ _

/-- All samples of a number of answers, in their order. -/
def samplesOf (answers : List (Except Error (List Float))) : List Float :=
  answers.flatMap fun answer => answer.toOption.getD []

/-- How many samples are asked for with parameters that are accepted. -/
def acceptedSize (kind : DistributionKind) (requests : List (Parameters × Nat)) : Nat :=
  (requests.map fun r => if (kind.distribution r.1).isOk then r.2 else 0).sum

/-- By induction on the requests: a refused one leaves the generator, and the samples of an
accepted one come before those of the rest of the run. -/
theorem drawAll_eq {requests : List (Parameters × Nat)}
    (h : ∀ r ∈ requests, kind.distribution r.1 = .ok d ∨ ∃ e, kind.distribution r.1 = .error e)
    (g : Generator) :
    d.samples (acceptedSize kind requests) g =
      (samplesOf (drawAll kind requests g).1, (drawAll kind requests g).2) := by
  induction requests generalizing g with
  | nil => rfl
  | cons r requests ih =>
    obtain ⟨hr, hrest⟩ := List.forall_mem_cons.1 h
    rw [drawAll_cons]
    rcases hr with hr | ⟨e, hr⟩
    · have hsize : acceptedSize kind (r :: requests) = r.2 + acceptedSize kind requests := by
        simp [acceptedSize, hr, Except.isOk, Except.toBool]
      rw [drawAction_of_ok hr, hsize, Distribution.samples_add, ih hrest]
      rfl
    · have hsize : acceptedSize kind (r :: requests) = acceptedSize kind requests := by
        simp [acceptedSize, hr, Except.isOk, Except.toBool]
      rw [drawAction_of_error hr, hsize, ih hrest]
      rfl

/-- A kind refuses parameters or has a distribution for them. -/
theorem DistributionKind.exists_distribution (h : ∀ e, ¬ kind.Refuses parameters e) :
    ∃ d, kind.distribution parameters = .ok d := by
  cases hd : kind.distribution parameters with
  | ok d => exact ⟨d, rfl⟩
  | error e => exact absurd (distribution_eq_error_iff.1 hd) (h e)

/-- **Seeded draws are one stream.** For any kind of distribution and any parameters: no assertion
of a constructor fails. A draw with refused parameters fails and leaves the generator as it was,
for every size. With parameters that are not refused, a draw gives as many samples as are asked
for, and a draw after another one gives the samples and leaves the generator of one draw of both
sizes. More generally, let any draws follow one another, each with these parameters or refused. All
samples together and the generator after them are those of one draw of the accepted sizes. -/
theorem draws_one_stream (kind : DistributionKind) (parameters : Parameters) :
    kind.distributionAsserted parameters = some (kind.distribution parameters) ∧
    (∀ e, kind.Refuses parameters e → ∀ size g,
      drawAction kind parameters size g = ⟨.error e, g, []⟩) ∧
    ((∀ e, ¬ kind.Refuses parameters e) →
      (∀ n m g, ∃ xs ys g' g'', drawAction kind parameters n g = ⟨.ok xs, g', []⟩ ∧
        xs.length = n ∧ drawAction kind parameters m g' = ⟨.ok ys, g'', []⟩ ∧ ys.length = m ∧
        drawAction kind parameters (n + m) g = ⟨.ok (xs ++ ys), g'', []⟩) ∧
      ∀ requests : List (Parameters × Nat),
        (∀ r ∈ requests, r.1 = parameters ∨ ∃ e, kind.Refuses r.1 e) → ∀ g,
        drawAction kind parameters (acceptedSize kind requests) g =
          ⟨.ok (samplesOf (drawAll kind requests g).1), (drawAll kind requests g).2, []⟩) := by
  refine ⟨kind.distributionAsserted_eq parameters, ?_, fun haccepted => ?_⟩
  · intro e h size g
    exact drawAction_of_error (DistributionKind.distribution_eq_error_iff.2 h) size g
  · obtain ⟨d, hd⟩ := DistributionKind.exists_distribution haccepted
    constructor
    · intro n m g
      refine ⟨_, _, _, _, drawAction_of_ok hd n g, d.length_samples n g,
        drawAction_of_ok hd m _, d.length_samples m _, ?_⟩
      rw [drawAction_of_ok hd, Distribution.samples_add]
    · intro requests hrequests g
      have hrun : ∀ r ∈ requests,
          kind.distribution r.1 = .ok d ∨ ∃ e, kind.distribution r.1 = .error e := by
        intro r hr
        rcases hrequests r hr with h | ⟨e, h⟩
        · rw [h]
          exact .inl hd
        · exact .inr ⟨e, DistributionKind.distribution_eq_error_iff.2 h⟩
      rw [drawAction_of_ok hd, drawAll_eq hrun]

end Sampling

end PulseNoise
