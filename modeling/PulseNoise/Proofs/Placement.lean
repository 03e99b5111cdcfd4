import PulseNoise.Proofs.Accumulation
import PulseNoise.Proofs.Formula

/-!
# Where the terms of an accumulator are placed

Decoherence and crosstalk check the place of every operator before they make a term of it.
Relaxation checks its targets alone and makes operators of the dimension that it finds there. The
terms of all three are placed on subsystems that there are, and their operators have the
dimensions of these subsystems.

The side of the matrix goes with the dimensions too. The operators that the library makes itself are
in shape, and so is every operator that is given with a source and was made with the constructors
and the algebra.

* `Term.PlacedOn` says that a term fits a system.
* `BuiltIn.placedOn_of_contribution` is what the sources of the library keep to.
* `process_accumulator_placedOn` is the accumulator of a run.
-/

namespace PulseNoise

/-! ## Places -/

/-- A well-formed term on subsystems that there are, whose operator has their dimensions. -/
structure Term.PlacedOn (t : Term) (dims : List Nat) : Prop extends t.WellFormed where
  targets_lt : ∀ q ∈ t.targets, q < dims.length
  dims_eq : t.operator.dims = t.targets.map (dims.getD · 0)

theorem entry_eq_ok_of_lt {dims : List Nat} {q : Nat} (h : q < dims.length) :
    entry dims q = .ok (dims.getD q 0) := entry_eq_ok_getD h 0

/-- An operator is accepted on subsystems that there are and that have its dimensions. -/
theorem checkPlacement_eq_ok_iff {operator : Operator} {targets dims : List Nat} :
    checkPlacement operator targets dims = .ok () ↔
      (∀ q ∈ targets, q < dims.length) ∧ operator.dims = targets.map (dims.getD · 0) := by
  have hentries (h : ∀ q ∈ targets, q < dims.length) :
      targets.mapM (entry dims) = .ok (targets.map (dims.getD · 0)) := by
    rw [mapM_eq_ok_iff, List.forall₂_map_right_iff, List.forall₂_same]
    exact fun q hq => entry_eq_ok_of_lt (h q hq)
  constructor
  · intro h
    obtain ⟨_, htargets, h⟩ := bind_eq_ok_iff.1 h
    have hlt := checkTargets_eq_ok_iff.1 htargets
    rw [hentries hlt] at h
    change (if operator.dims = targets.map (dims.getD · 0) then _ else _) = _ at h
    split at h
    · exact ⟨hlt, ‹_›⟩
    · cases h
  · rintro ⟨hlt, hdims⟩
    unfold checkPlacement
    rw [checkTargets_eq_ok_iff.2 hlt, hentries hlt]
    exact if_pos hdims

/-- With as many targets as subsystems only the grid and the samples are left to be checked. -/
theorem Term.make?_of_length_eq {operator : Operator} {targets : List Nat}
    (h : operator.subsystems = targets.length) (grid : Option (List Float))
    (coefficient : Coefficient) :
    Term.make? operator targets grid coefficient =
      Term.checkGrid grid >>= fun _ => Term.checkSamples grid coefficient >>= fun _ =>
        .ok ⟨operator, targets, grid, coefficient⟩ := by
  unfold Term.make?
  rw [if_neg (not_not.2 h)]
  rfl

theorem Term.placedOn_of_make? {operator : Operator} {targets dims : List Nat}
    {grid : Option (List Float)} {coefficient : Coefficient} {t : Term}
    (hplace : checkPlacement operator targets dims = .ok ())
    (hmake : Term.make? operator targets grid coefficient = .ok t) :
    t.PlacedOn dims ∧ t.operator = operator := by
  obtain ⟨rfl, hwellFormed⟩ := (Term.make?_eq_ok_iff _ _ _ _ _).1 hmake
  obtain ⟨hlt, hdims⟩ := checkPlacement_eq_ok_iff.1 hplace
  exact ⟨⟨hwellFormed, hlt, hdims⟩, rfl⟩

/-! ## The terms of each source -/

theorem Decoherence.placedOn_and_mem_collapse {noise : Decoherence} {dims : List Nat}
    {ts : List Term} (h : noise.terms dims = .ok ts) {t : Term} (ht : t ∈ ts) :
    t.PlacedOn dims ∧ t.operator ∈ noise.collapse := by
  obtain ⟨tss, htss, rfl⟩ := map_eq_ok_iff.1 h
  obtain ⟨ts, hmem, ht⟩ := List.mem_flatten.1 ht
  obtain ⟨operator, hoperator, hts⟩ := exists_mem_of_mapM htss hmem
  obtain ⟨targets, -, hterm⟩ := exists_mem_of_mapM hts ht
  obtain ⟨_, hplace, hmake⟩ := bind_eq_ok_iff.1 hterm
  obtain ⟨hplaced, rfl⟩ := Term.placedOn_of_make? hplace hmake
  exact ⟨hplaced, hoperator⟩

namespace Relaxation

theorem wellFormed_of_mem_collapseOperators {d : Nat} {t1 t2 : Option Float}
    {operators : List Operator} (h : collapseOperators d t1 t2 = .ok operators) :
    ∀ operator ∈ operators, operator.WellFormed :=
  forall_mem_collapseOperators (fun _ => Operator.wellFormed_of_single rfl rfl rfl)
    (fun _ => Operator.wellFormed_of_single rfl rfl rfl) h

theorem placedOn_and_wellFormed {noise : Relaxation} {dims : List Nat} {ts : List Term}
    (h : noise.terms dims = .ok ts) {t : Term} (ht : t ∈ ts) :
    t.PlacedOn dims ∧ t.operator.WellFormed := by
  obtain ⟨t1s, -, h⟩ := bind_eq_ok_iff.1 h
  obtain ⟨t2s, -, h⟩ := bind_eq_ok_iff.1 h
  obtain ⟨_, htargets, h⟩ := bind_eq_ok_iff.1 h
  obtain ⟨tss, htss, rfl⟩ := map_eq_ok_iff.1 h
  obtain ⟨ts, hmem, ht⟩ := List.mem_flatten.1 ht
  obtain ⟨q, hq, hts⟩ := exists_mem_of_mapM htss hmem
  obtain ⟨d, hd, hts⟩ := bind_eq_ok_iff.1 hts
  obtain ⟨t1, -, hts⟩ := bind_eq_ok_iff.1 hts
  obtain ⟨t2, -, hts⟩ := bind_eq_ok_iff.1 hts
  obtain ⟨operators, hoperators, hts⟩ := bind_eq_ok_iff.1 hts
  obtain ⟨operator, hoperator, hmake⟩ := exists_mem_of_mapM hts ht
  -- the targets are checked and the operator was made for the dimension found there, so that it
  -- would pass the check of its place, which relaxation does not make
  have hlt : q < dims.length := checkTargets_eq_ok_iff.1 htargets q hq
  obtain rfl : dims.getD q 0 = d := Except.ok.inj ((entry_eq_ok_of_lt hlt).symm.trans hd)
  have hplace : checkPlacement operator [q] dims = .ok () := by
    refine checkPlacement_eq_ok_iff.2 ⟨?_, dims_of_mem_collapseOperators hoperators _ hoperator⟩
    exact List.forall_mem_singleton.2 hlt
  obtain ⟨hplaced, rfl⟩ := Term.placedOn_of_make? hplace hmake
  exact ⟨hplaced, wellFormed_of_mem_collapseOperators hoperators _ hoperator⟩

end Relaxation

theorem wellFormed_populationDifference {d : Nat} {a : Operator}
    (h : populationDifference d = .ok a) : a.WellFormed := by
  obtain ⟨projector, hprojector, h⟩ := bind_eq_ok_iff.1 h
  obtain ⟨z, hz, h⟩ := bind_eq_ok_iff.1 h
  obtain ⟨left, hleft, hright⟩ := bind_eq_ok_iff.1 h
  have hprojectorShape := Operator.wellFormed_projector hprojector
  have hnum : ((Operator.num d).scale 2.0).WellFormed := Operator.wellFormed_of_single rfl rfl rfl
  have hidentity : (Operator.identity d).WellFormed := Operator.wellFormed_of_single rfl rfl rfl
  exact (hprojectorShape.mul (hnum.sub hidentity hz) hleft).mul hprojectorShape hright

theorem Crosstalk.placedOn_and_wellFormed {noise : Crosstalk} {dims : List Nat} {ts : List Term}
    (h : noise.terms dims = .ok ts) {t : Term} (ht : t ∈ ts) :
    t.PlacedOn dims ∧ t.operator.WellFormed := by
  unfold terms at h
  split at h
  · cases h
    cases ht
  · obtain ⟨_, -, hterms⟩ := bind_eq_ok_iff.1 h
    obtain ⟨i, -, hterm⟩ := exists_mem_of_mapM hterms ht
    obtain ⟨left, -, hterm⟩ := bind_eq_ok_iff.1 hterm
    obtain ⟨right, -, hterm⟩ := bind_eq_ok_iff.1 hterm
    obtain ⟨zLeft, hzLeft, hterm⟩ := bind_eq_ok_iff.1 hterm
    obtain ⟨zRight, hzRight, hterm⟩ := bind_eq_ok_iff.1 hterm
    obtain ⟨coefficient, -, hterm⟩ := bind_eq_ok_iff.1 hterm
    obtain ⟨_, hplace, hmake⟩ := bind_eq_ok_iff.1 hterm
    obtain ⟨hplaced, hoperator⟩ := Term.placedOn_of_make? hplace hmake
    refine ⟨hplaced, ?_⟩
    rw [hoperator]
    have htensor := (wellFormed_populationDifference hzLeft).tensor
      (wellFormed_populationDifference hzRight)
    exact htensor.scale _

namespace BuiltIn

variable {σ : Type}

/-- The operators that are given with a source; the library makes the others itself. -/
def givenOperators : BuiltIn σ → List Operator
  | decoherence noise => noise.collapse
  | relaxation _ | amplitude _ | random _ | crosstalk _ => []

/-- Every term that a source adds fits the system. Its operator is in shape, unless it was given. -/
theorem placedOn_of_contribution {source : BuiltIn σ} {dims : List Nat} {c : Contribution}
    (h : source.contribution dims = .ok c) {t : Term} (ht : t ∈ c.coherent ++ c.lindblad) :
    t.PlacedOn dims ∧ (t.operator.WellFormed ∨ t.operator ∈ source.givenOperators) := by
  cases source with
  | decoherence noise =>
    obtain ⟨ts, hts, rfl⟩ := map_eq_ok_iff.1 h
    obtain ⟨hplaced, hgiven⟩ := Decoherence.placedOn_and_mem_collapse hts ht
    exact ⟨hplaced, .inr hgiven⟩
  | relaxation noise =>
    obtain ⟨ts, hts, rfl⟩ := map_eq_ok_iff.1 h
    obtain ⟨hplaced, hshape⟩ := Relaxation.placedOn_and_wellFormed hts ht
    exact ⟨hplaced, .inl hshape⟩
  | crosstalk noise =>
    obtain ⟨ts, hts, rfl⟩ := map_eq_ok_iff.1 h
    rw [Contribution.ofCoherent, List.append_nil] at ht
    obtain ⟨hplaced, hshape⟩ := Crosstalk.placedOn_and_wellFormed hts ht
    exact ⟨hplaced, .inl hshape⟩
  | amplitude _ | random _ =>
    cases h
    cases ht

end BuiltIn

/-! ## The accumulator of a run -/

section Process

variable {σ : Type}

theorem exists_of_mem_total {cs : List Contribution} {t : Term}
    (ht : t ∈ (Contribution.total cs).coherent ++ (Contribution.total cs).lindblad) :
    ∃ c ∈ cs, t ∈ c.coherent ++ c.lindblad := by
  rcases List.mem_append.1 ht with ht | ht
  · obtain ⟨c, hc, ht⟩ := List.mem_flatMap.1 ht
    exact ⟨c, hc, List.mem_append_left _ ht⟩
  · obtain ⟨c, hc, ht⟩ := List.mem_flatMap.1 ht
    exact ⟨c, hc, List.mem_append_right _ ht⟩

theorem givenOperators_withImplied (sources : List (BuiltIn σ)) (options : Options) :
    (withImplied sources options).flatMap (·.givenOperators) =
      sources.flatMap (·.givenOperators) := by
  unfold withImplied
  rw [List.flatMap_append]
  cases options.impliedRelaxation <;> exact List.append_nil _

/-- **Every term of the accumulator fits the system.** With device noise on, every term of the
accumulator of a successful run is on subsystems that there are, and its operator has their
dimensions, in the order of the targets. With all operators that are given with a source made by
the constructors and the algebra, the side of its matrix is the product of these dimensions. -/
theorem process_accumulator_placedOn {pulses out : List Pulse} {sources : List (BuiltIn σ)}
    {options : Options} {s : σ} (hdevice : options.deviceNoise = true)
    (h : (process pulses (sources.map (·.toSource)) options s).result = .ok out) :
    ∃ dims acc, options.system.resolve = .ok dims ∧ out.getLast? = some acc ∧
      ∀ t ∈ acc.coherent ++ acc.lindblad,
        (∀ q ∈ t.targets, q < dims.length) ∧
        t.operator.dims = t.targets.map (dims.getD · 0) ∧
        ((∀ a ∈ sources.flatMap (·.givenOperators), a.Built) →
          t.operator.side = (t.targets.map (dims.getD · 0)).prod) := by
  obtain ⟨dims, cs, hdims, hcs, hlast⟩ := exists_accumulator hdevice h
  refine ⟨dims, (Pulse.systematic options.interpolation).extend (.total cs), hdims, hlast, ?_⟩
  intro t ht
  obtain ⟨c, hc, ht⟩ := exists_of_mem_total ht
  obtain ⟨source, hsource, hcontribution⟩ := exists_mem_of_mapM hcs hc
  rw [BuiltIn.contributionIn_true] at hcontribution
  obtain ⟨hplaced, hshape⟩ := BuiltIn.placedOn_of_contribution hcontribution ht
  refine ⟨hplaced.targets_lt, hplaced.dims_eq, ?_⟩
  intro hbuilt
  have hwellFormed : t.operator.WellFormed := by
    rcases hshape with hshape | hmem
    · exact hshape
    · rw [← givenOperators_withImplied sources options] at hbuilt
      exact (hbuilt _ (List.mem_flatMap.2 ⟨source, hsource, hmem⟩)).wellFormed
  rw [← hplaced.dims_eq]
  exact hwellFormed.side_eq

theorem process_accumulator_placedOn_sample :
    sampleOptions.deviceNoise = true ∧ ∃ out acc,
      (process samplePulses (sampleSources.map (·.toSource)) sampleOptions 7).result = .ok out ∧
      out.getLast? = some acc ∧ ∀ t ∈ acc.coherent ++ acc.lindblad,
        (∀ q ∈ t.targets, q < 2) ∧ t.operator.dims = t.targets.map ([2, 2].getD · 0) ∧
        t.operator.side = (t.targets.map ([2, 2].getD · 0)).prod := by
  obtain ⟨out, hout⟩ := exists_process_sample
  obtain ⟨dims, acc, hdims, hacc, hterms⟩ := process_accumulator_placedOn rfl hout
  obtain rfl : [2, 2] = dims := Except.ok.inj hdims
  refine ⟨rfl, out, acc, hout, hacc, ?_⟩
  intro t ht
  obtain ⟨htargets, htdims, hside⟩ := hterms t ht
  refine ⟨htargets, htdims, hside ?_⟩
  -- the only operator given with a source lowers a qubit
  have hgivens : sampleSources.flatMap (·.givenOperators) = [.destroy 2] := rfl
  rw [hgivens]
  exact List.forall_mem_singleton.2 ⟨.destroy 2, rfl⟩

end Process

end PulseNoise
