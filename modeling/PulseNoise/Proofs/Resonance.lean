import PulseNoise.Proofs.Coupling
import Mathlib.Data.List.GetD

/-!
# Resonant pairs

The strength of a pair has two denominators, which vanish when a frequency difference meets an
anharmonicity. Crosstalk looks at the lengths of its parameters alone, so that it accepts such a
resonance. Then no entry of the pair's operator is finite, the zeros among them included, since
each of them is multiplied by an infinity or by a NaN. Without a resonance the entries are finite,
unless a result on the way is too large for a double.

* `CrosstalkParameters.Resonant` says that a denominator vanishes, and
  `CrosstalkParameters.InRange` that nothing on the way is too large.
* `Operator.nowhereFinite_scale` is how one factor spoils all entries.
* `Crosstalk.resonance_spoils_pair` draws the conclusions for the terms of a chain.
-/

namespace PulseNoise

open Number

/-! ## Finite operators -/

namespace Operator

/-- Both parts of every entry are finite. -/
def Finite (a : Operator) : Prop :=
  ∀ k l, k < a.matrix.rows → l < a.matrix.cols →
    (a.matrix.get k l).re.isFinite = true ∧ (a.matrix.get k l).im.isFinite = true

/-- Neither part of any entry is finite. -/
def NowhereFinite (a : Operator) : Prop :=
  ∀ k l, k < a.matrix.rows → l < a.matrix.cols →
    (a.matrix.get k l).re.isFinite = false ∧ (a.matrix.get k l).im.isFinite = false

theorem get_scale {a : Operator} {k l : Nat} (factor : Float) (hk : k < a.matrix.rows)
    (hl : l < a.matrix.cols) :
    (a.scale factor).matrix.get k l = (a.matrix.get k l).scale factor :=
  DenseMatrix.get_map _ hk hl

/-- A factor that is not finite spoils every entry, whatever the entry is. -/
theorem nowhereFinite_scale (a : Operator) {factor : Float} (h : factor.isFinite = false) :
    (a.scale factor).NowhereFinite := by
  have hmul (x : Float) : (x * factor).isFinite = false := by
    by_contra hfinite
    rw [(isFinite_of_mul (Bool.not_eq_false _ ▸ hfinite)).2] at h
    cases h
  intro k l hk hl
  rw [get_scale (a := a) factor hk hl]
  exact ⟨hmul _, hmul _⟩

end Operator

theorem DenseMatrix.IsDiagonal.finite {a : Operator} {n : Nat} {f : Nat → Rat}
    (h : a.matrix.IsDiagonal n f) : a.Finite := by
  intro k l hk hl
  have hentry := h.entries k l (h.rows_eq ▸ hk) (h.cols_eq ▸ hl)
  exact ⟨hentry.re.isFinite, hentry.im.isFinite⟩

/-! ## Results in range -/

namespace Number

/-- The greatest finite double. -/
def greatest : Float := Float.ofBits 0x7fefffffffffffff

theorem isFinite_greatest : greatest.isFinite = true := by decide +kernel

/-- A number that does not exceed the greatest double is rounded to a finite one. -/
theorem RoundsTo.isFinite_of_abs_le {q : Rat} {z : Float} (h : RoundsTo q z)
    (hq : |q| ≤ value greatest) : z.isFinite = true := by
  obtain ⟨y, hy⟩ := (stands_value isFinite_greatest).representable.neg
  obtain ⟨hlow, hhigh⟩ := abs_le.1 hq
  exact h.isFinite hy.isFinite isFinite_greatest (by rwa [hy.value_eq]) hhigh

end Number

/-! ## The strength of a pair -/

namespace CrosstalkParameters

/-- Every entry of the three sequences is finite. -/
def Finite (parameters : CrosstalkParameters) : Prop :=
  ∀ x ∈ parameters.coupling ++ parameters.frequency ++ parameters.anharmonicity,
    x.isFinite = true

/-- The coupling of qubits `i` and `i + 1`. -/
def couplingAt (parameters : CrosstalkParameters) (i : Nat) : Float :=
  parameters.coupling.getD i 0.0

/-- The frequency difference of qubits `i` and `i + 1`. -/
def detuning (parameters : CrosstalkParameters) (i : Nat) : Float :=
  parameters.frequency.getD i 0.0 - parameters.frequency.getD (i + 1) 0.0

/-- The denominator with the anharmonicity of the second qubit. -/
def gapNext (parameters : CrosstalkParameters) (i : Nat) : Float :=
  parameters.detuning i - parameters.anharmonicity.getD (i + 1) 0.0

/-- The denominator with the anharmonicity of the first qubit. -/
def gapHere (parameters : CrosstalkParameters) (i : Nat) : Float :=
  parameters.detuning i + parameters.anharmonicity.getD i 0.0

/-- One of the two denominators of a pair is a zero. -/
def Resonant (parameters : CrosstalkParameters) (i : Nat) : Prop :=
  (parameters.gapNext i == 0.0) = true ∨ (parameters.gapHere i == 0.0) = true

/-- The denominators of a pair are finite, and no later result exceeds the greatest double. -/
structure InRange (parameters : CrosstalkParameters) (i : Nat) : Prop where
  next : (parameters.gapNext i).isFinite = true
  here : (parameters.gapHere i).isFinite = true
  inverseNext : |1 / value (parameters.gapNext i)| ≤ value greatest
  inverseHere : |1 / value (parameters.gapHere i)| ≤ value greatest
  difference : |value (1.0 / parameters.gapNext i) - value (1.0 / parameters.gapHere i)| ≤
    value greatest
  square : |value (parameters.couplingAt i) * value (parameters.couplingAt i)| ≤ value greatest
  product : |value (parameters.couplingAt i * parameters.couplingAt i) *
    value (1.0 / parameters.gapNext i - 1.0 / parameters.gapHere i)| ≤ value greatest

variable {parameters : CrosstalkParameters} {qubits i : Nat}

/-- The strength of a pair by its two denominators. -/
def strengthAt (parameters : CrosstalkParameters) (i : Nat) : Float :=
  parameters.couplingAt i * parameters.couplingAt i *
    (1.0 / parameters.gapNext i - 1.0 / parameters.gapHere i)

theorem Covers.coefficient_eq_strengthAt (h : parameters.Covers qubits) (hi : i < qubits - 1) :
    parameters.coefficient i = .ok (parameters.strengthAt i) := h.coefficient_eq hi

theorem Covers.isFinite_couplingAt (h : parameters.Covers qubits) (hfinite : parameters.Finite)
    (hi : i < qubits - 1) : (parameters.couplingAt i).isFinite = true := by
  have hlt : i < parameters.coupling.length := hi.trans_le h.coupling
  rw [couplingAt, List.getD_eq_getElem _ _ hlt]
  exact hfinite _ (List.mem_append_left _ (List.mem_append_left _ (List.getElem_mem hlt)))

/-- The inverse of a zero is not finite, and neither is what is computed from it. -/
theorem Resonant.not_isFinite_strengthAt (h : parameters.Resonant i) :
    ¬ (parameters.strengthAt i).isFinite = true := by
  intro hfinite
  obtain ⟨hnext, hhere⟩ := isFinite_of_sub (isFinite_of_mul hfinite).2
  rcases h with h | h
  · obtain ⟨hgap, hzero⟩ := beq_zero_iff.1 h
    exact value_ne_zero_of_div hnext hgap hzero
  · obtain ⟨hgap, hzero⟩ := beq_zero_iff.1 h
    exact value_ne_zero_of_div hhere hgap hzero

theorem isFinite_inverse {x : Float} (hx : x.isFinite = true) (hne : ¬ (x == 0.0) = true)
    (hrange : |1 / value x| ≤ value greatest) : (1.0 / x).isFinite = true := by
  have hvalue : value x ≠ 0 := fun hzero => hne (beq_zero_iff.2 ⟨hx, hzero⟩)
  have hround := roundsTo_div stands_one.isFinite hx hvalue
  rw [stands_one.value_eq] at hround
  exact hround.isFinite_of_abs_le hrange

/-- Without a resonance the strength is finite, when nothing on the way is too large. -/
theorem InRange.isFinite_strengthAt (h : parameters.InRange i)
    (hcoupling : (parameters.couplingAt i).isFinite = true) (hresonant : ¬ parameters.Resonant i) :
    (parameters.strengthAt i).isFinite = true := by
  obtain ⟨hnext, hhere⟩ := not_or.1 hresonant
  have hinverseNext := isFinite_inverse h.next hnext h.inverseNext
  have hinverseHere := isFinite_inverse h.here hhere h.inverseHere
  have hdifference := (roundsTo_sub hinverseNext hinverseHere).isFinite_of_abs_le h.difference
  have hsquare := (roundsTo_mul hcoupling hcoupling).isFinite_of_abs_le h.square
  exact (roundsTo_mul hsquare hdifference).isFinite_of_abs_le h.product

end CrosstalkParameters

/-! ## The terms of a chain -/

namespace Crosstalk

variable {noise : Crosstalk} {dims : List Nat} {i : Nat}

theorem nowhereFinite_pairOperator (zLeft zRight : Operator) {c : Float}
    (hc : ¬ c.isFinite = true) : (pairOperator zLeft zRight c).NowhereFinite := by
  refine Operator.nowhereFinite_scale _ (Bool.eq_false_iff.2 fun hhalf => hc ?_)
  exact isFinite_of_div hhalf stands_two.isFinite

theorem finite_pairOperator {zLeft zRight : Operator} {left right : Nat} {c : Float}
    (hleft : zLeft.matrix.IsDiagonal left zSign) (hright : zRight.matrix.IsDiagonal right zSign)
    (hc : c.isFinite = true) : (pairOperator zLeft zRight c).Finite := by
  have hhalf := stands_value (nearest_half hc).1
  exact DenseMatrix.IsDiagonal.finite ((isDiagonal_tensor hleft hright).scale hhalf fun _ _ =>
    representable_zzSign_mul _ _ hhalf.representable)

/-- The term of a pair is spoilt by a resonance, and by nothing else than it and an overflow. -/
theorem finite_pairTerm (hcovers : noise.parameters.Covers dims.length)
    (hlevels : ∀ d ∈ dims, 2 ≤ d) (hfinite : noise.parameters.Finite) (hi : i < dims.length - 1)
    {t : Term} (h : noise.pairTerm dims i = .ok t) :
    t.targets = [i, i + 1] ∧ (noise.parameters.Resonant i → t.operator.NowhereFinite) ∧
      (noise.parameters.InRange i → ¬ noise.parameters.Resonant i → t.operator.Finite) := by
  obtain ⟨left, right, hleft, hright, hlow, hlow'⟩ := exists_neighbours hlevels hi
  obtain ⟨zLeft, zRight, c, hzLeft, hzRight, -, -, hc, hterm⟩ :=
    pairTerm_eq hcovers hleft hright hlow hlow'
  obtain rfl := Except.ok.inj (h.symm.trans hterm)
  obtain rfl := Except.ok.inj (hc.symm.trans (hcovers.coefficient_eq_strengthAt hi))
  refine ⟨rfl, fun hresonant => ?_, fun hrange hresonant => ?_⟩
  · exact nowhereFinite_pairOperator zLeft zRight hresonant.not_isFinite_strengthAt
  · exact finite_pairOperator hzLeft hzRight
      (hrange.isFinite_strengthAt (hcovers.isFinite_couplingAt hfinite hi) hresonant)

/-- **A resonance spoils its pair and is not refused.** On a chain with two levels everywhere, let
crosstalk accept finite parameters. It answers with one term for each pair of neighbours. Where one
of the two denominators of the pair is a zero, no entry of the operator is finite. Where neither is
and no result on the way is too large for a double, all entries are. -/
theorem resonance_spoils_pair {σ : Type} (noise : Crosstalk) (dims : List Nat)
    (pulses : List Pulse) (acc : Pulse) (s : σ) (outcome : Outcome) (hdims : 2 ≤ dims.length)
    (hlevels : ∀ d ∈ dims, 2 ≤ d) (hfinite : noise.parameters.Finite)
    (h : (noise.toSource.noisyPulses dims pulses acc s).result = .ok outcome) :
    ∃ ts, outcome = .pulsesAndAccumulator pulses (acc.appendCoherent ts) ∧
      ts.length = dims.length - 1 ∧ ∀ i < dims.length - 1, ∃ t, ts[i]? = some t ∧
        t.targets = [i, i + 1] ∧
        (noise.parameters.Resonant i → t.operator.NowhereFinite) ∧
        (noise.parameters.InRange i → ¬ noise.parameters.Resonant i → t.operator.Finite) := by
  rw [(noise.computes_noisyPulses hdims.not_gt pulses acc).result_eq s, terms,
    if_neg hdims.not_gt] at h
  obtain ⟨ts, hterms, rfl⟩ := map_eq_ok_iff.1 h
  obtain ⟨u, hcheck, hmapM⟩ := bind_eq_ok_iff.1 hterms
  have hcovers := CrosstalkParameters.check_eq_ok_iff.1 hcheck
  obtain ⟨hlength, hpairs⟩ := getElem?_of_mapM_range hmapM
  refine ⟨ts, rfl, hlength, fun i hi => ?_⟩
  obtain ⟨t, ht, hterm⟩ := hpairs i hi
  exact ⟨t, ht, finite_pairTerm hcovers hlevels hfinite hi hterm⟩

/-- A chain whose first pair is resonant: `5.0 - 5.25` meets the anharmonicity `-0.25`. -/
def resonantChain : Crosstalk := ⟨⟨[0.1, 0.1], [5.0, 5.25, 5.5], [-0.3, -0.25, -0.3]⟩⟩

theorem finite_resonantChain : resonantChain.parameters.Finite := by
  unfold CrosstalkParameters.Finite
  decide +kernel

theorem resonant_resonantChain :
    resonantChain.parameters.Resonant 0 ∧ ¬ resonantChain.parameters.Resonant 1 := by
  unfold CrosstalkParameters.Resonant
  decide +kernel

theorem inRange_resonantChain : resonantChain.parameters.InRange 1 := by
  constructor <;> decide +kernel

/-- Only the first of the two terms is spoilt. -/
theorem resonance_spoils_pair_sample :
    resonantChain.parameters.Finite ∧ ∃ outcome ts,
      (resonantChain.toSource.noisyPulses [2, 3, 2] [] (.systematic none) ()).result =
        .ok outcome ∧
      outcome = .pulsesAndAccumulator [] ((Pulse.systematic none).appendCoherent ts) ∧
      ∃ spoilt sound, ts[0]? = some spoilt ∧ spoilt.operator.NowhereFinite ∧
        ts[1]? = some sound ∧ sound.operator.Finite := by
  obtain ⟨outcome, hout⟩ := exists_eq_ok_of_isOk
    (x := (resonantChain.toSource.noisyPulses [2, 3, 2] [] (.systematic none) ()).result)
    (by decide +kernel)
  obtain ⟨ts, hts, -, hterms⟩ := resonance_spoils_pair resonantChain [2, 3, 2] []
    (.systematic none) () outcome (by decide) (by decide) finite_resonantChain hout
  obtain ⟨spoilt, hspoilt, -, hnowhere, -⟩ := hterms 0 (by decide)
  obtain ⟨sound, hsound, -, -, hfinite⟩ := hterms 1 (by decide)
  exact ⟨finite_resonantChain, outcome, ts, hout, hts, spoilt, sound, hspoilt,
    hnowhere resonant_resonantChain.1, hsound,
    hfinite inRange_resonantChain resonant_resonantChain.2⟩

/-- A resonance is accepted: the denominator of two qubits is a zero, and so an entry that is a zero
in ZZ itself is not finite in the accumulator. -/
theorem resonance_accepted :
    let noise : Crosstalk := ⟨⟨[0.1], [5.0, 5.25], [-0.3, -0.25]⟩⟩
    noise.parameters.Finite ∧ (noise.parameters.gapNext 0 == 0.0) = true ∧
      ∃ acc, (noise.toSource.noisyPulses [2, 2] [] (.systematic none) ()).result =
          .ok (.pulsesAndAccumulator [] acc) ∧
        ∃ t, acc.coherent = [t] ∧ (t.operator.matrix.get 0 1).re.isFinite = false := by
  intro noise
  have hfinite : noise.parameters.Finite := by
    unfold CrosstalkParameters.Finite
    decide +kernel
  have hentries : ((·.map fun t => (t.operator.matrix.get 0 1).re.isFinite) <$>
      noise.terms [2, 2]).toOption = some [false] := by decide +kernel
  obtain ⟨ts, hts⟩ := exists_eq_ok_of_isOk (x := noise.terms [2, 2]) (by decide +kernel)
  rw [hts] at hentries
  obtain ⟨t, rfl, ht⟩ := List.map_eq_singleton_iff.1 (Option.some.inj hentries)
  refine ⟨hfinite, by decide +kernel, (Pulse.systematic none).appendCoherent [t], ?_, t, rfl, ht⟩
  rw [(noise.computes_noisyPulses (by decide) [] (.systematic none)).result_eq (), hts]
  rfl

end Crosstalk

end PulseNoise
