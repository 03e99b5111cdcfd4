import PulseNoise.Proofs.Separation

/-!
# What a run leaves as it was

A run of the library's own sources only ever appends. The pulses of the caller keep their number,
their order, their ideal terms, their labels, their hints and their Lindblad terms, and coherent
noise is added behind what a pulse already had. The only new pulse is the accumulator at the end.

* `process_extends` says so for every list of sources, every sampler and all options.
-/

namespace PulseNoise

/-- **Frame of a run.** A successful run of the library's own sources returns the pulses given,
each with coherent terms added at the end at most, and with device noise on one accumulator more.
The accumulator has no ideal term and the interpolation of the options. -/
theorem process_extends {σ : Type} {pulses out : List Pulse} {sources : List (BuiltIn σ)}
    {options : Options} {s : σ}
    (h : (process pulses (sources.map (·.toSource)) options s).result = .ok out) :
    out.length = pulses.length + (if options.deviceNoise then 1 else 0) ∧
      (∀ (i : Nat) (p : Pulse), pulses[i]? = some p → ∃ q, out[i]? = some q ∧ p.Extends q) ∧
      (options.deviceNoise = true → ∃ acc, out.getLast? = some acc ∧ acc.ideal = none ∧
        acc.label = "systematic_noise" ∧ acc.interpolation = options.interpolation) := by
  obtain ⟨dims, noisy, cs, -, -, hwrite, -, rfl⟩ :=
    yield_process_map_eq_ok_iff.1 (Action.yield_eq_ok_iff.2 ⟨h, rfl⟩)
  have hextends : AllExtend pulses noisy := writeAll_extends hwrite
  refine ⟨?_, ?_, ?_⟩
  · rw [List.length_append, ← hextends.length_eq, appended]
    split <;> rfl
  · intro i p hp
    obtain ⟨q, hq, hpq⟩ := hextends.getElem? hp
    have hi : i < noisy.length := (List.getElem?_eq_some_iff.1 hq).1
    exact ⟨q, by rw [List.getElem?_append_left hi, hq], hpq⟩
  · intro hdevice
    rw [appended, if_pos hdevice]
    exact ⟨_, List.getLast?_concat, rfl, rfl, rfl⟩

/-- A control on one qubit that has Lindblad noise of its own. -/
def sampleControl (label : String) (qubit : Nat) : Pulse :=
  { label := label
    ideal := some ⟨.sigmax, [qubit], some [0.0, 1.0], .samples [1.0, 0.5]⟩
    interpolation := some .cubic
    coherent := [⟨.sigmaz, [qubit], none, .constant⟩]
    lindblad := [⟨.destroy 2, [qubit], none, .constant⟩] }

def samplePulses : List Pulse := [sampleControl "x0" 0, sampleControl "x1" 1]

/-- A sampler that numbers its draws. -/
def countingSampler : Sampling.Sampler Nat :=
  fun _ size n => ⟨.ok (List.replicate size (Number.ofCount n)), n + 1, []⟩

/-- Sources of all five kinds, with an index that is selected twice. -/
def sampleSources : List (BuiltIn Nat) :=
  [.crosstalk ⟨⟨[0.5], [5.0, 4.0], [0.25, 0.25]⟩⟩,
    .random ⟨0.5, countingSampler, .empty, some [1, 0, 1]⟩,
    .decoherence { Decoherence.single (.destroy 2) with onEachQubit := true },
    .amplitude (.scale 2.0),
    .relaxation (.uniform 4.0 8.0)]

/-- Two qubits with device noise on and a relaxation time for both. -/
def sampleOptions : Options :=
  ((Options.ofSystem (.qubits 2)).withT1 (.uniform 4.0)).withDeviceNoise true

theorem exists_process_sample :
    ∃ out, (process samplePulses (sampleSources.map (·.toSource)) sampleOptions 7).result =
      .ok out :=
  exists_eq_ok_of_isOk (by decide +kernel)

theorem process_extends_sample :
    ∃ out, (process samplePulses (sampleSources.map (·.toSource)) sampleOptions 7).result =
        .ok out ∧
      out.length = 3 ∧
      (∀ (i : Nat) (p : Pulse), samplePulses[i]? = some p →
        ∃ q, out[i]? = some q ∧ p.Extends q) ∧
      ∃ acc, out.getLast? = some acc ∧ acc.ideal = none ∧ acc.label = "systematic_noise" ∧
        acc.interpolation = none := by
  obtain ⟨out, hout⟩ := exists_process_sample
  obtain ⟨hlength, hpulses, hlast⟩ := process_extends hout
  exact ⟨out, hout, hlength, hpulses, hlast rfl⟩

end PulseNoise
