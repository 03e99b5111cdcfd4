import PulseNoise.Proofs.Ending
import PulseNoise.Proofs.Placement
import PulseNoise.Proofs.WorkList

/-!
# Where failures come from

A failure of the library reports a check that refused a value. Three failures do not: an entry that
a sequence does not have, a product that is too large, and an answer that cannot be used. The
sources of the library raise none of them. They check every place before they go there and answer
in the form that is asked for; only the sampler of random noise is left, which may do as it likes.

* `FailsOnly P x` says that every failure of `x` satisfies `P`; its rules follow the computation.
* `RandomNoise.Reaches` are the states in which random noise calls its sampler, and
  `RandomNoise.DrawFault` the failures that a call is answerable for.
* `BuiltIn.failure_of_noisyPulses` and `failure_of_process` say that an answer and a run fail with
  a report or with such a failure.
-/

namespace PulseNoise

/-- Whether a failure reports a check. The others are an entry that is not there, a product that is
too large and an answer that cannot be used. -/
def Error.isReport : Error → Bool
  | .noEntry .. | .overflow .. | .malformedOutput .. => false
  | _ => true

/-! ## Rules for failures -/

section Rules

variable {α β : Type} {P : Error → Prop}

/-- Every failure of a computation satisfies `P`. -/
def FailsOnly (P : Error → Prop) (x : Except Error α) : Prop := ∀ e, x = .error e → P e

theorem failsOnly_ok (a : α) : FailsOnly P (.ok a) := by
  intro e h
  cases h

theorem failsOnly_error {e : Error} (h : P e) : FailsOnly P (.error e : Except Error α) := by
  intro e' he
  cases he
  exact h

theorem FailsOnly.bind {x : Except Error α} {f : α → Except Error β} (hx : FailsOnly P x)
    (hf : ∀ a, x = .ok a → FailsOnly P (f a)) : FailsOnly P (x >>= f) := by
  cases x with
  | error e => exact failsOnly_error (hx e rfl)
  | ok a => exact hf a rfl

theorem FailsOnly.map {x : Except Error α} (hx : FailsOnly P x) (f : α → β) :
    FailsOnly P (f <$> x) := by
  intro e h
  exact hx e (map_eq_error_iff.1 h)

theorem failsOnly_mapM {f : α → Except Error β} {xs : List α}
    (h : ∀ x ∈ xs, FailsOnly P (f x)) : FailsOnly P (xs.mapM f) := by
  induction xs with
  | nil => exact failsOnly_ok []
  | cons x xs ih =>
    obtain ⟨hhead, htail⟩ := List.forall_mem_cons.1 h
    rw [List.mapM_cons]
    exact hhead.bind fun y _ => (ih htail).bind fun ys _ => failsOnly_ok (y :: ys)

theorem failsOnly_entry {xs : List α} {i : Nat} (h : i < xs.length) : FailsOnly P (entry xs i) := by
  rw [entry_eq_ok_iff.2 (List.getElem?_eq_getElem h)]
  exact failsOnly_ok _

end Rules

/-! ## Checks report -/

section Checks

theorem System.resolve_reports (system : System) : FailsOnly (·.isReport) system.resolve := by
  unfold resolve
  split
  · exact failsOnly_error rfl
  · split
    · exact failsOnly_ok _
    · split
      · exact failsOnly_error rfl
      · exact failsOnly_ok _

theorem checkTargets_reports (targets : List Nat) (subsystems : Nat) :
    FailsOnly (·.isReport) (checkTargets targets subsystems) := by
  unfold checkTargets
  split
  · exact failsOnly_error rfl
  · exact failsOnly_ok ()

/-- The dimensions of the targets are looked up behind the check of the targets. -/
theorem checkPlacement_reports (operator : Operator) (targets dims : List Nat) :
    FailsOnly (·.isReport) (checkPlacement operator targets dims) := by
  refine (checkTargets_reports targets dims.length).bind fun _ htargets => ?_
  have hlt := checkTargets_eq_ok_iff.1 htargets
  refine (failsOnly_mapM fun q hq => failsOnly_entry (hlt q hq)).bind fun targetDims _ => ?_
  split
  · exact failsOnly_ok ()
  · exact failsOnly_error rfl

theorem Term.checkGrid_reports (grid : Option (List Float)) :
    FailsOnly (·.isReport) (checkGrid grid) := by
  unfold checkGrid
  split
  · exact failsOnly_error rfl
  · exact failsOnly_ok ()

theorem Term.checkSamples_reports (grid : Option (List Float)) (coefficient : Coefficient) :
    FailsOnly (·.isReport) (checkSamples grid coefficient) := by
  unfold checkSamples
  split
  · exact failsOnly_ok ()
  · split
    · exact failsOnly_error rfl
    · split
      · exact failsOnly_ok ()
      · exact failsOnly_error rfl

theorem Term.make?_reports (operator : Operator) (targets : List Nat) (grid : Option (List Float))
    (coefficient : Coefficient) :
    FailsOnly (·.isReport) (make? operator targets grid coefficient) := by
  unfold make?
  split
  · exact failsOnly_error rfl
  · exact (checkGrid_reports grid).bind fun _ _ =>
      (checkSamples_reports grid coefficient).bind fun _ _ => failsOnly_ok _

end Checks

/-! ## Contributions report -/

theorem Decoherence.terms_reports (noise : Decoherence) (dims : List Nat) :
    FailsOnly (·.isReport) (noise.terms dims) := by
  refine (failsOnly_mapM fun operator _ => failsOnly_mapM fun targets _ => ?_).map _
  exact (checkPlacement_reports operator targets dims).bind fun _ _ =>
    Term.make?_reports operator targets noise.grid noise.coefficient

namespace RelaxationTime

theorem check_reports (name : String) (value : Float) :
    FailsOnly (·.isReport) (check name value) := by
  unfold check
  split
  · exact failsOnly_ok value
  · exact failsOnly_error rfl

theorem broadcast_reports (time : Option RelaxationTime) (name : String) (qubits : Nat) :
    FailsOnly (·.isReport) (broadcast time name qubits) := by
  match time with
  | none => exact failsOnly_ok _
  | some (.uniform t) => exact (check_reports name t).bind fun _ _ => failsOnly_ok _
  | some (.perQubit times) =>
    change FailsOnly _ (if times.length = qubits then times.mapM (checkEntry name) else _)
    split
    · refine failsOnly_mapM fun time _ => ?_
      cases time with
      | none => exact failsOnly_ok none
      | some value => exact (check_reports name value).map some
    · exact failsOnly_error rfl

end RelaxationTime

namespace Relaxation

theorem collapseOperators_reports (d : Nat) (t1 t2 : Option Float) :
    FailsOnly (·.isReport) (collapseOperators d t1 t2) := by
  unfold collapseOperators
  cases t2 with
  | none => exact failsOnly_ok _
  | some t2 =>
    refine FailsOnly.bind ?_ fun _ _ => failsOnly_ok _
    unfold effectiveT2
    split
    · exact failsOnly_ok t2
    · split
      · exact failsOnly_error rfl
      · exact failsOnly_ok _

/-- Every qubit that relaxes has a dimension and two times: the targets have been checked, and
there are as many times as dimensions. -/
theorem terms_reports (noise : Relaxation) (dims : List Nat) :
    FailsOnly (·.isReport) (noise.terms dims) := by
  refine (RelaxationTime.broadcast_reports _ _ _).bind fun t1s ht1s => ?_
  refine (RelaxationTime.broadcast_reports _ _ _).bind fun t2s ht2s => ?_
  refine (checkTargets_reports _ _).bind fun _ htargets => ?_
  refine (failsOnly_mapM fun q hq => ?_).map _
  have hq : q < dims.length := checkTargets_eq_ok_iff.1 htargets q hq
  have ht1 : q < t1s.length := RelaxationTime.length_broadcast ht1s ▸ hq
  have ht2 : q < t2s.length := RelaxationTime.length_broadcast ht2s ▸ hq
  refine (failsOnly_entry hq).bind fun d _ => ?_
  refine (failsOnly_entry ht1).bind fun t1 _ => ?_
  refine (failsOnly_entry ht2).bind fun t2 _ => ?_
  refine (collapseOperators_reports d t1 t2).bind fun operators _ => ?_
  exact failsOnly_mapM fun operator _ => Term.make?_reports operator [q] none .constant

end Relaxation

theorem Operator.combine_reports (verb : String) (f : DenseMatrix → DenseMatrix → DenseMatrix)
    (a b : Operator) : FailsOnly (·.isReport) (combine verb f a b) := by
  unfold combine
  split
  · exact failsOnly_ok _
  · exact failsOnly_error rfl

theorem Operator.projector_reports (d : Nat) (levels : List Nat) :
    FailsOnly (·.isReport) (projector d levels) := by
  unfold projector
  split
  · exact failsOnly_error rfl
  · exact failsOnly_ok _

theorem populationDifference_reports (d : Nat) :
    FailsOnly (·.isReport) (populationDifference d) :=
  (Operator.projector_reports d [0, 1]).bind fun _ _ =>
    (Operator.combine_reports _ _ _ _).bind fun _ _ =>
      (Operator.combine_reports _ _ _ _).bind fun _ _ => Operator.combine_reports _ _ _ _

namespace CrosstalkParameters

theorem checkLength_reports (name : String) (values : List Float) (required : Nat) :
    FailsOnly (·.isReport) (checkLength name values required) := by
  unfold checkLength
  split
  · exact failsOnly_error rfl
  · exact failsOnly_ok ()

theorem check_reports (parameters : CrosstalkParameters) (qubits : Nat) :
    FailsOnly (·.isReport) (parameters.check qubits) :=
  (checkLength_reports _ _ _).bind fun _ _ =>
    (checkLength_reports _ _ _).bind fun _ _ => checkLength_reports _ _ _

theorem le_length_of_checkLength {name : String} {values : List Float} {required : Nat}
    (h : checkLength name values required = .ok ()) : required ≤ values.length := by
  unfold checkLength at h
  split at h
  · cases h
  · omega

/-- Parameters that pass the check have an entry for every qubit and every pair. -/
theorem le_length_of_check {parameters : CrosstalkParameters} {qubits : Nat}
    (h : parameters.check qubits = .ok ()) :
    qubits - 1 ≤ parameters.coupling.length ∧ qubits ≤ parameters.frequency.length ∧
      qubits ≤ parameters.anharmonicity.length := by
  obtain ⟨_, hcoupling, h⟩ := bind_eq_ok_iff.1 h
  obtain ⟨_, hfrequency, hanharmonicity⟩ := bind_eq_ok_iff.1 h
  exact ⟨le_length_of_checkLength hcoupling, le_length_of_checkLength hfrequency,
    le_length_of_checkLength hanharmonicity⟩

/-- The strength of a pair is there when the parameters cover the chain. -/
theorem coefficient_failsOnly {P : Error → Prop} {parameters : CrosstalkParameters} {qubits i : Nat}
    (h : parameters.check qubits = .ok ()) (hi : i < qubits - 1) :
    FailsOnly P (parameters.coefficient i) := by
  obtain ⟨hcoupling, hfrequency, hanharmonicity⟩ := le_length_of_check h
  refine (failsOnly_entry (by omega)).bind fun here _ => ?_
  refine (failsOnly_entry (by omega)).bind fun next _ => ?_
  refine (failsOnly_entry (by omega)).bind fun coupling _ => ?_
  refine (failsOnly_entry (by omega)).bind fun alphaNext _ => ?_
  exact (failsOnly_entry (by omega)).bind fun alpha _ => failsOnly_ok _

end CrosstalkParameters

/-- Every pair of the chain lies in it, and so do its parameters. -/
theorem Crosstalk.terms_reports (noise : Crosstalk) (dims : List Nat) :
    FailsOnly (·.isReport) (noise.terms dims) := by
  unfold terms
  split
  · exact failsOnly_ok []
  · refine (CrosstalkParameters.check_reports _ _).bind fun _ hcheck => ?_
    refine failsOnly_mapM fun i hi => ?_
    have hpair : i < dims.length - 1 := List.mem_range.1 hi
    refine (failsOnly_entry (by omega)).bind fun left _ => ?_
    refine (failsOnly_entry (by omega)).bind fun right _ => ?_
    refine (populationDifference_reports left).bind fun zLeft _ => ?_
    refine (populationDifference_reports right).bind fun zRight _ => ?_
    refine (CrosstalkParameters.coefficient_failsOnly hcheck hpair).bind fun coefficient _ => ?_
    exact (checkPlacement_reports _ _ _).bind fun _ _ => Term.make?_reports _ _ none .constant

theorem Options.validate_reports (options : Options) : FailsOnly (·.isReport) options.validate := by
  rw [validate_eq]
  exact options.system.resolve_reports.bind fun dims _ => (Relaxation.terms_reports _ dims).map _

/-! ## Perturbations report -/

theorem selectIndices_reports (indices : Option (List Nat)) (pulses : Nat) :
    FailsOnly (·.isReport) (selectIndices indices pulses) := by
  unfold selectIndices
  split
  · exact failsOnly_ok _
  · split
    · exact failsOnly_error rfl
    · exact failsOnly_ok _

/-- Every selected pulse is there, also when all are selected. -/
theorem lt_of_selectIndices {indices : Option (List Nat)} {selected : List Nat} {n : Nat}
    (h : selectIndices indices n = .ok selected) : ∀ i ∈ selected, i < n := by
  cases indices with
  | none =>
    cases h
    exact fun i hi => List.mem_range.1 hi
  | some indices =>
    unfold selectIndices at h
    simp only at h
    split at h
    · cases h
    · rename_i hnone
      cases h
      exact find?_le_eq_none_iff.1 hnone

theorem perturbAt_reports {perturbation : Perturbation} {grid : Option (List Float)}
    {pulses : List Pulse} {i : Nat} (h : i < pulses.length) :
    FailsOnly (·.isReport) (perturbAt perturbation grid pulses i) := by
  refine (failsOnly_entry h).bind fun pulse _ => FailsOnly.bind ?_ fun _ _ => failsOnly_ok _
  unfold perturb
  split
  · exact failsOnly_error rfl
  · exact (Term.make?_reports _ _ _ _).bind fun _ _ => failsOnly_ok _

theorem AmplitudeNoise.perturbed_reports (noise : AmplitudeNoise) (pulses : List Pulse) :
    FailsOnly (·.isReport) (noise.perturbed pulses) := by
  refine (selectIndices_reports _ _).bind fun indices hindices => ?_
  have hlt := lt_of_selectIndices hindices
  clear hindices
  induction indices generalizing pulses with
  | nil => exact failsOnly_ok pulses
  | cons i indices ih =>
    obtain ⟨hi, hrest⟩ := List.forall_mem_cons.1 hlt
    rw [List.foldlM_cons]
    refine (perturbAt_reports hi).bind fun noisy hnoisy => ih noisy ?_
    rwa [← (perturbAt_extends hnoisy).length_eq]

/-! ## Draws -/

namespace RandomNoise

variable {σ : Type}

/-- The failures that a call of the sampler in a state is answerable for: one of its own, or that of
a number of samples which is not the number of points. -/
inductive DrawFault (noise : RandomNoise σ) (points : List Float) (t : σ) : Error → Prop
  | sampler {e : Error}
      (h : (noise.sampler noise.parameters points.length t).result = .error e) :
      DrawFault noise points t e
  | count {samples : List Float}
      (h : (noise.sampler noise.parameters points.length t).result = .ok samples)
      (hlength : samples.length ≠ points.length) :
      DrawFault noise points t
        (.malformedOutput sourceName (.sampleCount samples.length points.length))

/-- In answering pulses from the state `s`, the noise calls its sampler in the state `t`: there is a
shared grid, and the draws for the entries before one of the selection leave this state. -/
inductive Reaches (noise : RandomNoise σ) (pulses : List Pulse) (s : σ)
    (grid : Sampling.SampleGrid) (t : σ) : Prop
  | intro {before after : List Nat} {i : Nat} {noisy : List Pulse}
      (hselection : selectIndices noise.indices pulses.length = .ok (before ++ i :: after))
      (hgrid : noise.gridOn pulses = .ok grid)
      (hbefore : (before.foldlM (noise.drawFor grid.points) pulses).yield s = .ok (noisy, t))

variable {noise : RandomNoise σ} {points : List Float} {pulses : List Pulse} {s t : σ} {e : Error}

theorem failure_of_drawFor {i : Nat} (hi : i < pulses.length)
    (h : (noise.drawFor points pulses i).yield t = .error e) :
    e.isReport ∨ noise.DrawFault points t e := by
  rcases Action.yield_bind_eq_error_iff.1 h with h | ⟨samples, u, hsamples, h⟩
  · exact .inr (.sampler (Action.yield_eq_error_iff.1 h))
  · rcases Action.yield_bind_eq_error_iff.1 h with h | ⟨_, v, -, h⟩
    · have hcheck := (Action.computes_ofExcept (checkDraw samples points)).yield_eq_error_iff.1 h
      unfold checkDraw at hcheck
      split at hcheck
      · cases hcheck
      · rename_i hlength
        cases hcheck
        exact .inr (.count (Action.yield_eq_ok_iff.1 hsamples).1 hlength)
    · have hperturb := (Action.computes_ofExcept _).yield_eq_error_iff.1 h
      exact .inl (perturbAt_reports hi e hperturb)

/-- A fault of the call is the failure of the draw. -/
theorem DrawFault.yield_drawFor (h : noise.DrawFault points t e) (pulses : List Pulse) (i : Nat) :
    (noise.drawFor points pulses i).yield t = .error e := by
  refine Action.yield_bind_eq_error_iff.2 ?_
  cases h with
  | sampler h => exact .inl (Action.yield_eq_error_iff.2 h)
  | count h hlength =>
    refine .inr ⟨_, _, Action.yield_eq_ok_iff.2 ⟨h, rfl⟩, ?_⟩
    refine Action.yield_bind_eq_error_iff.2 (.inl ?_)
    exact (Action.computes_ofExcept _).yield_eq_error_iff.2 (if_neg hlength)

theorem gridOn_reports (noise : RandomNoise σ) (pulses : List Pulse) :
    FailsOnly (·.isReport) (noise.gridOn pulses) := by
  refine FailsOnly.bind ?_ fun span _ => ?_
  · unfold sharedSpan
    split
    · exact failsOnly_error rfl
    · exact failsOnly_ok _
  · unfold Sampling.SampleGrid.make?
    split
    · exact failsOnly_error rfl
    · dsimp only
      split
      · exact failsOnly_error rfl
      · exact failsOnly_ok _

/-- An answer of random noise fails with a report, or because of a call of the sampler. -/
theorem failure_of_noisyPulses (h : (noise.noisyPulses pulses).yield s = .error e) :
    e.isReport ∨ ∃ grid t, noise.Reaches pulses s grid t ∧ noise.DrawFault grid.points t e := by
  rcases Action.yield_bind_eq_error_iff.1 h with h | ⟨indices, _, hindices, h⟩
  · exact .inl (selectIndices_reports _ _ e ((Action.computes_ofExcept _).yield_eq_error_iff.1 h))
  · obtain ⟨hselection, rfl⟩ := (Action.computes_ofExcept _).yield_eq_ok_iff.1 hindices
    split at h
    · cases h
    · rcases Action.yield_bind_eq_error_iff.1 h with h | ⟨grid, _, hgrid, h⟩
      · exact .inl (noise.gridOn_reports pulses e
          ((noise.computes_sharedGrid pulses).yield_eq_error_iff.1 h))
      · obtain ⟨hok, rfl⟩ := (noise.computes_sharedGrid pulses).yield_eq_ok_iff.1 hgrid
        rcases Action.yield_bind_eq_error_iff.1 h with h | ⟨_, _, -, h⟩
        · obtain ⟨before, i, after, noisy, t, rfl, hbefore, h⟩ :=
            Action.yield_foldlM_eq_error_iff.1 h
          have hlength : noisy.length = pulses.length := by
            refine (AllExtend.length_eq ?_).symm
            exact Action.foldlM_carries AllExtend.refl AllExtend.trans
              (drawFor_along AllExtend.alongPerturbations) hbefore
          have hi : i < noisy.length :=
            hlength ▸ lt_of_selectIndices hselection i (List.mem_append_right _ List.mem_cons_self)
          rcases failure_of_drawFor hi h with hreport | hfault
          · exact .inl hreport
          · exact .inr ⟨grid, t, .intro hselection hok hbefore, hfault⟩
        · cases h

/-- A call of the sampler with a fault ends the answer. -/
theorem Reaches.yield_noisyPulses {grid : Sampling.SampleGrid} (h : noise.Reaches pulses s grid t)
    (hfault : noise.DrawFault grid.points t e) :
    (noise.noisyPulses pulses).yield s = .error e := by
  obtain @⟨before, after, i, noisy, hselection, hgrid, hbefore⟩ := h
  refine Action.yield_bind_eq_error_iff.2 (.inr ⟨before ++ i :: after, s, ?_, ?_⟩)
  · exact (Action.computes_ofExcept _).yield_eq_ok_iff.2 ⟨hselection, rfl⟩
  · rw [if_neg (by simp)]
    refine Action.yield_bind_eq_error_iff.2 (.inr ⟨grid, s, ?_, ?_⟩)
    · exact (noise.computes_sharedGrid pulses).yield_eq_ok_iff.2 ⟨hgrid, rfl⟩
    · refine Action.yield_bind_eq_error_iff.2 (.inl ?_)
      exact Action.yield_foldlM_eq_error_iff.2
        ⟨before, i, after, noisy, t, rfl, hbefore, hfault.yield_drawFor noisy i⟩

end RandomNoise

/-! ## Answers and runs -/

section Runs

variable {σ : Type}

/-- A source of the library fails with a report, or it is random noise and a call of its sampler has
failed. -/
theorem BuiltIn.failure_of_noisyPulses {source : BuiltIn σ} {dims : List Nat} {pulses : List Pulse}
    {acc : Pulse} {s : σ} {e : Error}
    (h : (source.toSource.noisyPulses dims pulses acc).yield s = .error e) :
    e.isReport ∨ ∃ noise grid t, source = .random noise ∧ noise.Reaches pulses s grid t ∧
      noise.DrawFault grid.points t e := by
  cases source with
  | decoherence noise =>
    have hterms := map_eq_error_iff.1 ((noise.computes_noisyPulses dims _ _).yield_eq_error_iff.1 h)
    exact .inl (noise.terms_reports dims e hterms)
  | relaxation noise =>
    have hterms := map_eq_error_iff.1 ((noise.computes_noisyPulses dims _ _).yield_eq_error_iff.1 h)
    exact .inl (noise.terms_reports dims e hterms)
  | crosstalk noise =>
    by_cases hdims : dims.length < 2
    · cases (noise.computes_noisyPulses_of_short hdims _ _).yield_eq_error_iff.1 h
    · have hanswer := (noise.computes_noisyPulses hdims _ _).yield_eq_error_iff.1 h
      exact .inl (noise.terms_reports dims e (map_eq_error_iff.1 hanswer))
  | amplitude noise =>
    have hnoisy := map_eq_error_iff.1 ((noise.computes_noisyPulses dims _ _).yield_eq_error_iff.1 h)
    exact .inl (noise.perturbed_reports pulses e hnoisy)
  | random noise =>
    rcases RandomNoise.failure_of_noisyPulses h with hreport | ⟨grid, t, hreaches, hfault⟩
    · exact .inl hreport
    · exact .inr ⟨noise, grid, t, rfl, hreaches, hfault⟩

/-- A run of the library's own sources fails with a report, or a call of the sampler of one of its
random sources has failed. -/
theorem failure_of_process {pulses : List Pulse} {sources : List (BuiltIn σ)} {options : Options}
    {s : σ} {e : Error}
    (h : (process pulses (sources.map (·.toSource)) options s).result = .error e) :
    e.isReport ∨ ∃ noise points t, .random noise ∈ sources ∧ noise.DrawFault points t e := by
  obtain ⟨reply, hends⟩ := exists_ends pulses (sources.map (·.toSource)) options s
  rw [hends.process_eq] at h
  cases hends with
  | unresolved hdims =>
    cases h
    exact .inl (options.system.resolve_reports e hdims)
  | refused hdims hdevice hvalid =>
    cases h
    exact .inl (options.validate_reports e hvalid)
  | @stopped dims before after source stage e' hdims hvalid hsources hpasses hcall hfailure =>
    cases h
    have hmem : source ∈ sources.map (·.toSource) := by
      rw [hsources]
      exact List.mem_append_right before List.mem_cons_self
    obtain ⟨builtIn, hbuiltIn, rfl⟩ := List.mem_map.1 hmem
    cases hanswer : (builtIn.toSource.answer dims stage).result with
    | error e' =>
      rw [hanswer] at hfailure
      obtain rfl : e' = e := Option.some.inj hfailure
      rcases builtIn.failure_of_noisyPulses (Action.yield_eq_error_iff.2 hanswer) with
        hreport | ⟨noise, grid, t, rfl, -, hfault⟩
      · exact .inl hreport
      · exact .inr ⟨noise, grid.points, t, hbuiltIn, hfault⟩
    | ok outcome =>
      -- an answer of the library has no fault, so that the run does not stop at it
      rw [hanswer] at hfailure
      have hfaultless := builtIn.fault?_eq_none (hpasses.ideal_eq_none rfl)
        (Action.yield_eq_ok_iff.2 ⟨hanswer, rfl⟩)
      rw [hpasses.length_eq rfl] at hfaultless
      cases hfaultless.symm.trans hfailure
  | finished hdims hvalid hpasses hlength hideal => cases h

end Runs

end PulseNoise
