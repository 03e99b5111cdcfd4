import PulseNoise.Proofs.Failure

/-!
# Answers that can be used

A run refuses an answer with another number of pulses and an accumulator with an ideal term. No
source of the library gives such an answer. The one failure of this kind that they raise themselves
is that of random noise whose sampler has drawn another number of samples than were wanted, and
the seeded samplers draw as many as are wanted. A failure of the sampler is passed on as it is, so
that one of this kind is passed on too.

* `Sampling.Sampler.seeded_answers` says what a seeded sampler answers.
* `malformedOutput_only_of_draws` says exactly when there is such a failure, and that there is none
  when all sampling is seeded.
* `malformedOutput_passed_on` is a failure of this kind without any samples.
-/

namespace PulseNoise

open Sampling

variable {σ : Type}

/-! ## Seeded samplers -/

namespace Sampling

theorem DistributionKind.distribution_reports (kind : DistributionKind) (parameters : Parameters) :
    FailsOnly (·.isReport) (kind.distribution parameters) := by
  cases kind with
  | normal =>
    change FailsOnly _ (Distribution.normal? _ _)
    unfold Distribution.normal?
    split
    · exact failsOnly_error rfl
    · split
      · exact failsOnly_error rfl
      · exact failsOnly_ok _
  | uniform =>
    change FailsOnly _ (Distribution.uniform? _ _)
    unfold Distribution.uniform?
    split
    · exact failsOnly_error rfl
    · exact failsOnly_ok _

/-- A seeded sampler draws as many samples as are wanted, or reports that the parameters are not
those of a distribution. -/
theorem Sampler.seeded_answers (cell : Cell σ Generator) (kind : DistributionKind)
    (parameters : Parameters) (size : Nat) (s : σ) :
    (∃ samples, (Sampler.seeded cell kind parameters size s).result = .ok samples ∧
        samples.length = size) ∨
      ∃ e, (Sampler.seeded cell kind parameters size s).result = .error e ∧ e.isReport := by
  have hresult : (Sampler.seeded cell kind parameters size s).result =
      (drawFrom kind parameters size (cell.get s)).1 := rfl
  rw [hresult]
  unfold drawFrom
  cases hkind : kind.distribution parameters with
  | error e => exact .inr ⟨e, rfl, kind.distribution_reports parameters e hkind⟩
  | ok d => exact .inl ⟨_, rfl, d.length_samples size (cell.get s)⟩

end Sampling

namespace RandomNoise

variable {noise : RandomNoise σ} {points : List Float} {t : σ}

/-- A failed draw of a seeded sampler is a report. -/
theorem DrawFault.isReport_of_seeded {e : Error} (h : noise.DrawFault points t e)
    {cell : Cell σ Generator} {kind : DistributionKind}
    (hseeded : noise.sampler = Sampler.seeded cell kind) : e.isReport := by
  have hanswers := Sampler.seeded_answers cell kind noise.parameters points.length t
  rw [← hseeded] at hanswers
  cases h with
  | sampler h =>
    rcases hanswers with ⟨samples, hok, -⟩ | ⟨e', herror, hreport⟩
    · cases h.symm.trans hok
    · obtain rfl : e = e' := Except.error.inj (h.symm.trans herror)
      exact hreport
  | @count samples h hlength =>
    rcases hanswers with ⟨samples', hok, hsize⟩ | ⟨e, herror, -⟩
    · obtain rfl : samples = samples' := Except.ok.inj (h.symm.trans hok)
      exact absurd hsize hlength
    · cases h.symm.trans herror

/-- A call of the sampler is answerable for an answer that cannot be used when it has drawn another
number of samples than there are points, or when just this is its own failure. -/
theorem drawFault_malformedOutput_iff {name : String} {fault : OutputFault} :
    noise.DrawFault points t (.malformedOutput name fault) ↔
      (∃ samples, (noise.sampler noise.parameters points.length t).result = .ok samples ∧
        samples.length ≠ points.length ∧ name = sourceName ∧
        fault = .sampleCount samples.length points.length) ∨
      (noise.sampler noise.parameters points.length t).result =
        .error (.malformedOutput name fault) := by
  constructor
  · intro h
    cases h with
    | sampler h => exact .inr h
    | @count samples h hlength => exact .inl ⟨samples, h, hlength, rfl, rfl⟩
  · rintro (⟨samples, h, hlength, rfl, rfl⟩ | h)
    · exact .count h hlength
    · exact .sampler h

end RandomNoise

/-! ## Sources -/

namespace BuiltIn

/-- Whether a source samples, if it samples at all, with a seeded sampler. -/
def IsSeeded : BuiltIn σ → Prop
  | random noise => ∃ cell kind, noise.sampler = Sampler.seeded cell kind
  | decoherence _ | relaxation _ | amplitude _ | crosstalk _ => True

/-- What a source does to a run fails exactly when its answer does: an answer that it gives is
taken in. -/
theorem apply_eq_error_iff (source : BuiltIn σ) (dims : List Nat) {work : Workpiece} {s : σ}
    {e : Error} (hideal : work.accumulator.ideal = none) :
    (source.toSource.apply dims work s).result = .error e ↔
      (source.toSource.noisyPulses dims work.pulses work.accumulator s).result = .error e := by
  rw [← Action.yield_eq_error_iff, ← Action.yield_eq_error_iff,
    Source.yield_apply_of_faultless fun _ _ h => source.fault?_eq_none hideal h]
  exact map_eq_error_iff

/-- An answer that cannot be used is that of random noise, in which a call of the sampler is
answerable for it. -/
theorem apply_eq_malformedOutput_iff (source : BuiltIn σ) (dims : List Nat) {work : Workpiece}
    {s : σ} {name : String} {fault : OutputFault} (hideal : work.accumulator.ideal = none) :
    (source.toSource.apply dims work s).result = .error (.malformedOutput name fault) ↔
      ∃ noise grid t, source = .random noise ∧ noise.Reaches work.pulses s grid t ∧
        noise.DrawFault grid.points t (.malformedOutput name fault) := by
  rw [source.apply_eq_error_iff dims hideal, ← Action.yield_eq_error_iff]
  constructor
  · intro h
    rcases source.failure_of_noisyPulses h with hreport | hcall
    · cases hreport
    · exact hcall
  · rintro ⟨noise, grid, t, rfl, hreaches, hfault⟩
    exact hreaches.yield_noisyPulses hfault

end BuiltIn

/-- A run over sources whose sampling is seeded ends with a report, if it fails. -/
theorem isReport_of_process {pulses : List Pulse} {sources : List (BuiltIn σ)} {options : Options}
    {s : σ} {e : Error} (hseeded : ∀ source ∈ sources, source.IsSeeded)
    (h : (process pulses (sources.map (·.toSource)) options s).result = .error e) :
    e.isReport := by
  rcases failure_of_process h with hreport | ⟨noise, points, t, hmem, hfault⟩
  · exact hreport
  · obtain ⟨cell, kind, hsampler⟩ := hseeded _ hmem
    exact hfault.isReport_of_seeded hsampler

/-- **Answers that can be used.** A source of the library, applied to any pulses and any
accumulator, gives rise to an answer that cannot be used exactly if it is random noise and one of
the calls that it makes of its sampler drew a number of samples that is not the number of points of
the shared grid, or failed with just this failure itself. So a source whose sampling is seeded never
does, and a run over such sources never ends in this way. -/
theorem malformedOutput_only_of_draws :
    (∀ (source : BuiltIn σ) (dims : List Nat) (work : Workpiece) (s : σ) (name : String)
        (fault : OutputFault), work.accumulator.ideal = none →
      ((source.toSource.apply dims work s).result = .error (.malformedOutput name fault) ↔
        ∃ noise grid t, source = .random noise ∧ noise.Reaches work.pulses s grid t ∧
          ((∃ samples, (noise.sampler noise.parameters grid.points.length t).result = .ok samples ∧
              samples.length ≠ grid.points.length ∧ name = RandomNoise.sourceName ∧
              fault = .sampleCount samples.length grid.points.length) ∨
            (noise.sampler noise.parameters grid.points.length t).result =
              .error (.malformedOutput name fault)))) ∧
      (∀ source : BuiltIn σ, source.IsSeeded → ∀ (dims : List Nat) (work : Workpiece) (s : σ)
        (name : String) (fault : OutputFault), work.accumulator.ideal = none →
        (source.toSource.apply dims work s).result ≠ .error (.malformedOutput name fault)) ∧
      ∀ (pulses : List Pulse) (sources : List (BuiltIn σ)) (options : Options) (s : σ)
        (name : String) (fault : OutputFault), (∀ source ∈ sources, source.IsSeeded) →
        (process pulses (sources.map (·.toSource)) options s).result ≠
          .error (.malformedOutput name fault) := by
  refine ⟨?_, ?_, ?_⟩
  · intro source dims work s name fault hideal
    simp only [source.apply_eq_malformedOutput_iff dims hideal,
      RandomNoise.drawFault_malformedOutput_iff]
  · intro source hseeded dims work s name fault hideal h
    obtain ⟨noise, grid, t, rfl, -, hfault⟩ := (source.apply_eq_malformedOutput_iff dims hideal).1 h
    obtain ⟨cell, kind, hsampler⟩ := hseeded
    cases hfault.isReport_of_seeded hsampler
  · intro pulses sources options s name fault hseeded h
    cases isReport_of_process hseeded h

/-- A sampler that draws a sample too many. -/
def lavishSampler : Sampler Nat := fun _ size n => ⟨.ok (.replicate (size + 1) 0.5), n, []⟩

/-- Random noise whose state is the generator of its sampler. -/
def seededNoise : RandomNoise Generator :=
  ⟨0.5, Sampler.seeded ⟨id, fun g _ => g⟩ .normal, .empty, none⟩

/-- Noise with a sample too many ends at a call that it reaches; seeded noise does not end so. -/
theorem malformedOutput_only_of_draws_sample :
    BuiltIn.sampleWork.accumulator.ideal = none ∧
      (∃ noise grid t, BuiltIn.random ⟨0.5, lavishSampler, .empty, none⟩ = .random noise ∧
        noise.Reaches samplePulses 7 grid t ∧ ∃ samples,
          (noise.sampler noise.parameters grid.points.length t).result = .ok samples ∧
            samples.length ≠ grid.points.length) ∧
      (BuiltIn.random seededNoise).IsSeeded ∧ ∀ name fault,
        (process samplePulses [(BuiltIn.random seededNoise).toSource] sampleOptions
          (.ofSeed 42)).result ≠ .error (.malformedOutput name fault) := by
  have hideal : BuiltIn.sampleWork.accumulator.ideal = none := rfl
  have hseeded : (BuiltIn.random seededNoise).IsSeeded := ⟨_, _, rfl⟩
  refine ⟨hideal, ?_, hseeded, ?_⟩
  · have hfails : ((BuiltIn.random ⟨0.5, lavishSampler, .empty, none⟩).toSource.apply [2, 2]
        BuiltIn.sampleWork 7).result = .error (.malformedOutput "random" (.sampleCount 4 3)) := by
      decide +kernel
    obtain ⟨noise, grid, t, hnoise, hreaches, hcall⟩ :=
      (malformedOutput_only_of_draws.1 _ _ _ _ _ _ hideal).1 hfails
    refine ⟨noise, grid, t, hnoise, hreaches, ?_⟩
    rcases hcall with ⟨samples, hok, hlength, -⟩ | herror
    · exact ⟨samples, hok, hlength⟩
    · cases hnoise
      cases herror
  · intro name fault
    exact malformedOutput_only_of_draws.2.2 samplePulses [.random seededNoise] sampleOptions _
      name fault (List.forall_mem_singleton.2 hseeded)

/-- A sampler that draws nothing and fails as if an answer could not be used. -/
def failingSampler : Sampler Nat := fun _ _ n =>
  ⟨.error (.malformedOutput "sampler" (.pulseCount 2 0)), n, []⟩

/-- Random noise passes the failure of its sampler on, so that there is an answer that cannot be
used although the sampler never draws any samples; and with a sample too many a whole run ends in
this way. -/
theorem malformedOutput_passed_on :
    BuiltIn.sampleWork.accumulator.ideal = none ∧
      ((BuiltIn.random ⟨0.5, failingSampler, .empty, none⟩).toSource.apply [2, 2]
          BuiltIn.sampleWork 7).result = .error (.malformedOutput "sampler" (.pulseCount 2 0)) ∧
      (∀ parameters size t samples,
        (failingSampler parameters size t).result ≠ .ok samples) ∧
      (process samplePulses [(BuiltIn.random ⟨0.5, lavishSampler, .empty, none⟩).toSource]
        sampleOptions 7).result = .error (.malformedOutput "random" (.sampleCount 4 3)) := by
  refine ⟨rfl, ?_, ?_, ?_⟩
  · decide +kernel
  · intro parameters size t samples h
    cases h
  · decide +kernel

end PulseNoise
