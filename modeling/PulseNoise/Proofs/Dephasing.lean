import PulseNoise.Proofs.Collapse
import PulseNoise.Proofs.Inverse

/-!
# Rates from relaxation times

Relaxation accepts every positive time, infinities and the least doubles included. What it computes
from the times is another matter. A T1 alone and a T2 alone always give finite operators. A T2
beside a T1 is inverted first, and the inverse of a T2 of at most `2 ^ (-1024)` is out of range.
Then the dephasing time that is left is a zero or a NaN, and no entry of the dephasing operator is
finite. This is the only exception.

* `Relaxation.Invertible` says that the exception does not apply.
* `Relaxation.finite_damping` and `finite_dephasing` bound the entries, `vanishes_dephasing` is the
  limit of an infinite time and `nowhereFinite_dephasing` the exception.
* `Relaxation.collapseOperators_finite_iff` has all times and all dimensions.
-/

namespace PulseNoise

open Number

/-! ## Entries -/

/-- A count is a 64-bit word. -/
theorem Number.upTo_ofCount (n : Nat) : UpTo (2 ^ (64 : Int)) (ofCount n) := by
  have hmod : ofCount n = ofCount (n % UInt64.size) := by
    have hword : n.toUInt64 = (n % UInt64.size).toUInt64 := by
      apply UInt64.toNat_inj.1
      change n % UInt64.size = n % UInt64.size % UInt64.size
      rw [Nat.mod_mod]
    exact congrArg UInt64.toFloat hword
  have hlt : n % UInt64.size < UInt64.size := Nat.mod_lt _ (by decide)
  have hround := roundsTo_ofCount hlt
  rw [← hmod] at hround
  have hnonneg : (0 : Rat) ≤ (n % UInt64.size : Nat) := Nat.cast_nonneg _
  have hle : ((n % UInt64.size : Nat) : Rat) ≤ 2 ^ (64 : Int) := by exact_mod_cast hlt.le
  have hfinite : (ofCount n).isFinite = true := by
    refine hround.isFinite_of_abs_le ?_
    rw [abs_of_nonneg hnonneg]
    exact hle.trans (two_zpow_le_greatest (by norm_num))
  exact ⟨_, stands_value hfinite, (hround.nearest hfinite).ge_of_ge .zero hnonneg,
    (hround.nearest hfinite).le_of_le (isDouble_two_zpow (by norm_num)) hle⟩

namespace Operator

/-- Every entry of an operator is the zero. -/
def Vanishes (a : Operator) : Prop :=
  ∀ k l, k < a.matrix.rows → l < a.matrix.cols → (a.matrix.get k l).Denotes 0

/-- Every entry of an operator is real and between zero and a bound. -/
def EntriesUpTo (a : Operator) (bound : Rat) : Prop :=
  ∀ k l, k < a.matrix.rows → l < a.matrix.cols →
    ∃ q, (a.matrix.get k l).Denotes q ∧ 0 ≤ q ∧ q ≤ bound

variable {a : Operator} {bound bound' : Rat} {factor : Float}

/-- The products of entries and a factor are in range when their bounds are. -/
theorem EntriesUpTo.finite_scale (h : a.EntriesUpTo bound) (hfactor : UpTo bound' factor)
    (hbound : bound * bound' ≤ value greatest) : (a.scale factor).Finite := by
  obtain ⟨q', hq', hnonneg', hle'⟩ := hfactor
  intro k l hk hl
  obtain ⟨q, hq, hnonneg, hle⟩ := h k l hk hl
  rw [get_scale (a := a) factor hk hl]
  have hround := roundsTo_mul hq.re.isFinite hq'.isFinite
  rw [hq.re.value_eq, hq'.value_eq] at hround
  refine ⟨hround.isFinite_of_abs_le ?_, (hq.im.zero_mul hq').isFinite⟩
  rw [abs_of_nonneg (mul_nonneg hnonneg hnonneg')]
  exact (mul_le_mul hle hle' hnonneg' (hnonneg.trans hle)).trans hbound

theorem EntriesUpTo.vanishes_scale (h : a.EntriesUpTo bound) (hfactor : Stands factor 0) :
    (a.scale factor).Vanishes := by
  intro k l hk hl
  obtain ⟨q, hq, -⟩ := h k l hk hl
  rw [get_scale (a := a) factor hk hl]
  exact ⟨hq.re.mul_zero hfactor, hq.im.mul_zero hfactor⟩

/-- An operator with an entry cannot be finite and nowhere finite. -/
theorem NowhereFinite.not_finite (h : a.NowhereFinite) (hrows : 0 < a.matrix.rows)
    (hcols : 0 < a.matrix.cols) : ¬ a.Finite := by
  intro hfinite
  have hentry := (h 0 0 hrows hcols).1
  rw [(hfinite 0 0 hrows hcols).1] at hentry
  cases hentry

theorem entriesUpTo_num (d : Nat) : (num d).EntriesUpTo (2 ^ (64 : Int)) := by
  intro k l hk hl
  change k < d at hk
  change l < d at hl
  change ∃ q, ((DenseMatrix.diagonal d fun n => .ofReal (ofCount n)).get k l).Denotes q ∧ _
  rw [DenseMatrix.get_diagonal _ hk hl]
  split
  · obtain ⟨q, hq, hbounds⟩ := upTo_ofCount k
    exact ⟨q, .ofReal hq, hbounds⟩
  · exact ⟨0, .zero, le_rfl, by positivity⟩

theorem entriesUpTo_destroy (d : Nat) : (destroy d).EntriesUpTo (2 ^ (32 : Int)) := by
  intro k l hk hl
  change k < d at hk
  change l < d at hl
  change ∃ q, ((DenseMatrix.ofFn d d fun i j =>
    if j = i + 1 then .ofReal (ofCount j).sqrt else 0).get k l).Denotes q ∧ _
  rw [DenseMatrix.get_ofFn _ hk hl]
  split
  · obtain ⟨q, hq, hnonneg, hle⟩ := upTo_ofCount l
    rw [← hq.value_eq] at hnonneg hle
    have hfinite := isFinite_sqrt hq.isFinite hnonneg
    refine ⟨_, .ofReal (stands_value hfinite), ?_, ?_⟩
    · exact le_value_sqrt hq.isFinite hnonneg .zero le_rfl (by simpa using hnonneg)
    · refine value_sqrt_le hq.isFinite hnonneg (isDouble_two_zpow (by norm_num)) (by positivity) ?_
      exact hle.trans_eq (by norm_num)
  · exact ⟨0, .zero, le_rfl, by positivity⟩

end Operator

/-! ## Times -/

/-- A time that has been accepted is positive. -/
theorem RelaxationTime.pos_of_broadcast {time : Option RelaxationTime} {name : String}
    {qubits : Nat} {ts : List (Option Float)} {t : Float} (h : broadcast time name qubits = .ok ts)
    (ht : some t ∈ ts) : 0.0 < t := by
  have hcheck {u : Float} (hu : check name u = .ok t) : 0.0 < t := by
    unfold check at hu
    split at hu
    · rename_i hpos
      cases hu
      exact hpos
    · cases hu
  unfold broadcast at h
  split at h
  · cases h
    cases List.eq_of_mem_replicate ht
  · obtain ⟨u, hu, hts⟩ := bind_eq_ok_iff.1 h
    cases hts
    cases List.eq_of_mem_replicate ht
    exact hcheck hu
  · split at h
    · obtain ⟨x, -, hx⟩ := exists_mem_of_mapM h ht
      cases x with
      | none => cases hx
      | some u =>
        obtain ⟨u', hu, hsame⟩ := map_eq_ok_iff.1 hx
        cases hsame
        exact hcheck hu
    · cases h

namespace Relaxation

/-! ## The two operators -/

variable {d : Nat} {t1 t2 e : Float}

theorem finite_damping (d : Nat) (h : 0.0 < t1) : (damping d t1).Finite := by
  have hfactor := upTo_div_sqrt stands_one (by norm_num) (by norm_num) h
  refine (Operator.entriesUpTo_destroy d).finite_scale hfactor ?_
  rw [← zpow_add₀ two_ne_zero]
  exact two_zpow_le_greatest (by norm_num)

theorem finite_dephasing (d : Nat) (h : 0.0 < e) : (dephasing d e).Finite := by
  have hfactor := upTo_div_sqrt stands_two (by norm_num) le_rfl (two_mul_pos h)
  refine (Operator.entriesUpTo_num d).finite_scale hfactor ?_
  rw [← zpow_add₀ two_ne_zero]
  exact two_zpow_le_greatest (by norm_num)

/-- Without pure dephasing the operator is the zero. -/
theorem vanishes_dephasing (d : Nat) : (dephasing d (1.0 / 0.0)).Vanishes :=
  (Operator.entriesUpTo_num d).vanishes_scale ⟨rfl, rfl⟩

/-- A dephasing time that is a zero or a NaN spoils every entry. -/
theorem nowhereFinite_dephasing (d : Nat) (h : e = 0.0 ∨ e = 0.0 / 0.0) :
    (dephasing d e).NowhereFinite := by
  refine Operator.nowhereFinite_scale _ ?_
  rcases h with rfl | rfl <;> rfl

/-! ## All times -/

/-- A T2 beside a T1 has an inverse in range. -/
def Invertible (t1 t2 : Option Float) : Prop :=
  ∀ u1 u2, t1 = some u1 → t2 = some u2 → inverseBound < u2

theorem effectiveT2_spec {t1 : Option Float} (h1 : ∀ u1, t1 = some u1 → 0.0 < u1) (h2 : 0.0 < t2)
    (h : effectiveT2 t1 t2 = .ok e) :
    (Invertible t1 (some t2) → 0.0 < e) ∧
      (¬ Invertible t1 (some t2) → e = 0.0 ∨ e = 0.0 / 0.0) ∧
      ∀ u1, t1 = some u1 → (2.0 * u1 == t2) = true → Invertible t1 (some t2) → e = 1.0 / 0.0 := by
  cases t1 with
  | none =>
    cases h
    exact ⟨fun _ => h2, fun hnot => absurd (fun _ _ hnone => nomatch hnone) hnot, nofun⟩
  | some u1 =>
    have hpos := two_mul_pos (h1 u1 rfl)
    have hbound : Invertible (some u1) (some t2) ↔ inverseBound < t2 :=
      ⟨fun h => h u1 t2 rfl rfl, fun h _ _ _ hu => Option.some.inj hu ▸ h⟩
    change (if 2.0 * u1 < t2 then _ else _) = _ at h
    split at h
    · cases h
    · rename_i hle
      cases h
      rw [hbound]
      refine ⟨inverse_sub_inverse_pos h2 hpos hle, fun hnot => ?_, fun v hv hbeq => ?_⟩
      · exact inverse_sub_of_infinite (infinite_inverse h2 hnot) _
      · cases hv
        exact inverse_sub_inverse_of_unpack_eq h2 (unpack_eq_of_beq hpos hbeq).symm

/-- **Relaxation times give finite operators.** Let the times `t1` and `t2` of a qubit with `d`
levels have been accepted, and let `operators` be its collapse operators. The dephasing time that is
left is positive, an infinity when `t2` is twice `t1`, where the dephasing operator vanishes, and
every entry of every operator is finite. The exception to all of it is a T2 of at most
`2 ^ (-1024)` beside a T1: there the dephasing time that is left is never positive, and some entry
is not finite. -/
theorem collapseOperators_finite_iff {time1 time2 : Option RelaxationTime} {qubits : Nat}
    {t1s t2s : List (Option Float)} {t1 t2 : Option Float} {operators : List Operator}
    (h1 : RelaxationTime.broadcast time1 "t1" qubits = .ok t1s)
    (h2 : RelaxationTime.broadcast time2 "t2" qubits = .ok t2s) (ht1 : t1 ∈ t1s) (ht2 : t2 ∈ t2s)
    (hd : 1 ≤ d) (h : collapseOperators d t1 t2 = .ok operators) :
    (∀ u2, t2 = some u2 → ∃ e, effectiveT2 t1 u2 = .ok e ∧ (0.0 < e ↔ Invertible t1 t2) ∧
      ∀ u1, t1 = some u1 → (2.0 * u1 == u2) = true → Invertible t1 t2 →
        e = 1.0 / 0.0 ∧ (dephasing d e).Vanishes) ∧
    ((∀ a ∈ operators, a.Finite) ↔ Invertible t1 t2) := by
  have hpos1 : ∀ u1, t1 = some u1 → 0.0 < u1 := fun u1 hu =>
    RelaxationTime.pos_of_broadcast h1 (hu ▸ ht1)
  have hdamped : ∀ a ∈ (t1.map (damping d)).toList, a.Finite := by
    intro a ha
    obtain ⟨u1, hu, rfl⟩ := Option.map_eq_some_iff.1 (Option.mem_toList.1 ha)
    exact finite_damping d (hpos1 u1 hu)
  cases t2 with
  | none =>
    cases h
    exact ⟨nofun, iff_of_true hdamped nofun⟩
  | some u2 =>
    obtain ⟨e, he, hoperators⟩ := bind_eq_ok_iff.1 h
    cases hoperators
    obtain ⟨hpos, hspoilt, hlimit⟩ :=
      effectiveT2_spec hpos1 (RelaxationTime.pos_of_broadcast h2 ht2) he
    have hnot : ¬ Invertible t1 (some u2) → ¬ 0.0 < e := by
      intro hnot
      rcases hspoilt hnot with rfl | rfl <;> exact of_decide_eq_false rfl
    constructor
    · intro v hv
      cases hv
      refine ⟨e, he, ⟨not_imp_not.1 hnot, hpos⟩, fun u1 hu hbeq hbound => ?_⟩
      obtain rfl := hlimit u1 hu hbeq hbound
      exact ⟨rfl, vanishes_dephasing d⟩
    · constructor
      · intro hfinite
        by_contra hbound
        have hnowhere := nowhereFinite_dephasing d (hspoilt hbound)
        exact hnowhere.not_finite hd hd (hfinite _ (by simp))
      · intro hbound a ha
        rcases List.mem_append.1 ha with ha | ha
        · exact hdamped a ha
        · obtain rfl := List.mem_singleton.1 ha
          exact finite_dephasing d (hpos hbound)

/-- Twice a T1 of `1.0` leaves no dephasing. -/
theorem collapseOperators_finite_iff_sample :
    ∃ operators e, collapseOperators 2 (some 1.0) (some 2.0) = .ok operators ∧
      effectiveT2 (some 1.0) 2.0 = .ok e ∧ 0.0 < e ∧ e = 1.0 / 0.0 ∧ (dephasing 2 e).Vanishes ∧
      ∀ a ∈ operators, a.Finite := by
  obtain ⟨operators, h⟩ := exists_eq_ok_of_isOk (x := collapseOperators 2 (some 1.0) (some 2.0))
    (by decide +kernel)
  have hbroadcast (name : String) {t : Float} (ht : 0.0 < t) :
      RelaxationTime.broadcast (some (.uniform t)) name 1 = .ok [some t] := by
    simp only [RelaxationTime.broadcast, RelaxationTime.check, if_pos ht]
    rfl
  have hbound : Invertible (some 1.0) (some 2.0) := by
    intro _ u2 _ hu
    cases hu
    decide +kernel
  obtain ⟨hleft, hfinite⟩ := collapseOperators_finite_iff (hbroadcast "t1" (by decide +kernel))
    (hbroadcast "t2" (by decide +kernel)) (List.mem_singleton_self _) (List.mem_singleton_self _)
    (by decide) h
  obtain ⟨e, he, hpos, hlimit⟩ := hleft 2.0 rfl
  obtain ⟨hinfinite, hvanishes⟩ := hlimit 1.0 rfl (by decide +kernel) hbound
  exact ⟨operators, e, h, he, hpos.2 hbound, hinfinite, hvanishes, hfinite.2 hbound⟩

/-- The least double as T1 and twice that as T2 are accepted. The dephasing time that is left is a
NaN and no infinity, and the dephasing operator has an entry that is not finite. -/
theorem effectiveT2_not_number :
    let t1 : Float := Float.ofBits 1
    let t2 : Float := Float.ofBits 2
    RelaxationTime.broadcast (some (.uniform t1)) "t1" 1 = .ok [some t1] ∧
      RelaxationTime.broadcast (some (.uniform t2)) "t2" 1 = .ok [some t2] ∧
      (2.0 * t1 == t2) = true ∧ effectiveT2 (some t1) t2 = .ok (0.0 / 0.0) ∧
      ∃ operators, collapseOperators 2 (some t1) (some t2) = .ok operators ∧
        ∃ a ∈ operators, (a.matrix.get 1 1).re.isFinite = false := by
  intro t1 t2
  have heffective : effectiveT2 (some t1) t2 = .ok (0.0 / 0.0) := by decide +kernel
  refine ⟨by decide +kernel, by decide +kernel, by decide +kernel, heffective,
    [damping 2 t1, dephasing 2 (0.0 / 0.0)], ?_, dephasing 2 (0.0 / 0.0), by simp, ?_⟩
  · simp only [collapseOperators, heffective]
    rfl
  · exact (nowhereFinite_dephasing 2 (.inr rfl) 1 1 (by decide) (by decide)).1

end Relaxation

end PulseNoise
