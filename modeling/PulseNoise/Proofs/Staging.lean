import PulseNoise.Proofs.Frame
import PulseNoise.Proofs.Stage

/-!
# Runs in stages

With device noise off a run returns pulses alone, and another run can take them up. Between the two
the accumulator is thrown away, and the second run sees pulses that carry noise terms already. No
source of the library minds: what it writes to the pulses, and whether it fails, depends neither on
the accumulator nor on noise that is there before it.

* `BuiltIn.writeIn` is what a source means to the pulses of a run, its failures included.
* `yield_process_of_off_eq` says that with device noise off a run is these writings one after the
  other.
* `process_append_eq_staged` splits a run in two.
-/

namespace PulseNoise

variable {σ : Type}

/-- What a source of a run does to the pulses. A source that writes to the accumulator does
nothing to them, but the run stops at it when it has nothing to contribute. -/
def BuiltIn.writeIn (deviceNoise : Bool) (dims : List Nat) (source : BuiltIn σ)
    (pulses : List Pulse) : Action σ (List Pulse) := do
  let noisy ← source.write pulses
  let _ ← source.contributionIn deviceNoise dims
  return noisy

def writeAllIn (deviceNoise : Bool) (dims : List Nat) (sources : List (BuiltIn σ))
    (pulses : List Pulse) : Action σ (List Pulse) :=
  sources.foldlM (fun pulses source => source.writeIn deviceNoise dims pulses) pulses

/-! ## Pulses of a workpiece -/

theorem BuiltIn.yield_writeIn (source : BuiltIn σ) (deviceNoise : Bool) (dims : List Nat)
    {work : Workpiece} (hideal : work.accumulator.ideal = none) (s : σ) :
    (source.writeIn deviceNoise dims work.pulses).yield s =
      (fun p => (p.1.pulses, p.2)) <$>
        (runSource deviceNoise dims work source.toSource).yield s := by
  rw [source.yield_runSource deviceNoise dims hideal, writeIn, Action.yield_bind]
  cases (source.write work.pulses).yield s with
  | error e => rfl
  | ok p =>
    change (Action.ofExcept (source.contributionIn deviceNoise dims) >>= _).yield p.2 = _
    rw [Action.yield_bind]
    cases source.contributionIn deviceNoise dims <;> rfl

/-- The accumulator has no part in what the sources of a run make of the pulses. -/
theorem yield_writeAllIn (sources : List (BuiltIn σ)) (deviceNoise : Bool) (dims : List Nat)
    (work : Workpiece) (hideal : work.accumulator.ideal = none) (s : σ) :
    (writeAllIn deviceNoise dims sources work.pulses).yield s =
      (fun p => (p.1.pulses, p.2)) <$>
        (runSources deviceNoise dims (sources.map (·.toSource)) work).yield s := by
  induction sources generalizing work s with
  | nil => rfl
  | cons source sources ih =>
    simp only [writeAllIn, runSources, List.map_cons, List.foldlM_cons, Action.yield_bind]
    rw [source.yield_writeIn deviceNoise dims hideal]
    cases hstep : (runSource deviceNoise dims work source.toSource).yield s with
    | error e => rfl
    | ok p => exact ih p.1 (runSource_keeps_ideal hideal hstep) p.2

/-! ## Runs without device noise -/

section Process

variable {options : Options}

/-- The implied relaxation is left out. -/
theorem writeAllIn_withImplied (dims : List Nat) (sources : List (BuiltIn σ)) (options : Options)
    (pulses : List Pulse) :
    writeAllIn false dims (withImplied sources options) pulses =
      writeAllIn false dims sources pulses := by
  unfold writeAllIn withImplied
  rw [List.foldlM_append]
  cases options.impliedRelaxation <;> exact bind_pure _

theorem yield_process_of_off_eq (hoff : options.deviceNoise = false) (pulses : List Pulse)
    (sources : List (BuiltIn σ)) (s : σ) :
    (process pulses (sources.map (·.toSource)) options).yield s =
      options.system.resolve >>= fun dims => (writeAllIn false dims sources pulses).yield s := by
  cases hdims : options.system.resolve with
  | error e =>
    have hresult : (process pulses (sources.map (·.toSource)) options s).result = .error e := by
      rw [process_of_unresolved hdims]
    exact Action.yield_eq_error_iff.2 hresult
  | ok dims =>
    have hvalid : options.deviceNoise = true → options.validate = .ok () := by
      intro hdevice
      rw [hoff] at hdevice
      cases hdevice
    have hwrites : (writeAllIn false dims (withImplied sources options) pulses).yield s =
        (fun p => (p.1.pulses, p.2)) <$>
          (runSources false dims ((withImplied sources options).map (·.toSource))
            ⟨pulses, Pulse.systematic options.interpolation⟩).yield s :=
      yield_writeAllIn _ false dims ⟨pulses, Pulse.systematic options.interpolation⟩ rfl s
    change _ = (writeAllIn false dims sources pulses).yield s
    rw [← writeAllIn_withImplied dims sources options, hwrites, process_of_accepted hdims hvalid,
      hoff, allSources_map, Action.yield_bind]
    cases (runSources false dims ((withImplied sources options).map (·.toSource))
        ⟨pulses, Pulse.systematic options.interpolation⟩).yield s <;> rfl

/-- **A run can be split in two.** With device noise off, a run over two lists of sources is a run
over the first list and then, when that succeeds, one over the second list from the pulses and the
samplers that the first one has left: the same pulses and samplers come out, or the same error. -/
theorem process_append_eq_staged (hoff : options.deviceNoise = false) (pulses : List Pulse)
    (first second : List (BuiltIn σ)) (s : σ) :
    (process pulses ((first ++ second).map (·.toSource)) options).yield s =
      (process pulses (first.map (·.toSource)) options >>= fun noisy =>
        process noisy (second.map (·.toSource)) options).yield s := by
  rw [Action.yield_bind]
  simp only [yield_process_of_off_eq hoff]
  cases options.system.resolve with
  | error e => rfl
  | ok dims =>
    change (writeAllIn false dims (first ++ second) pulses).yield s =
      (writeAllIn false dims first pulses).yield s >>= fun p =>
        (writeAllIn false dims second p.1).yield p.2
    rw [writeAllIn, List.foldlM_append, Action.yield_bind]
    rfl

theorem process_append_eq_staged_sample :
    (sampleOptions.withDeviceNoise false).deviceNoise = false ∧ ∃ out s',
      (process samplePulses ((sampleSources ++ sampleSources.reverse).map (·.toSource))
          (sampleOptions.withDeviceNoise false)).yield 7 = .ok (out, s') ∧
        (process samplePulses (sampleSources.map (·.toSource))
            (sampleOptions.withDeviceNoise false) >>= fun noisy =>
          process noisy (sampleSources.reverse.map (·.toSource))
            (sampleOptions.withDeviceNoise false)).yield 7 = .ok (out, s') := by
  have hoff : (sampleOptions.withDeviceNoise false).deviceNoise = false := rfl
  have hsplit := process_append_eq_staged hoff samplePulses sampleSources sampleSources.reverse 7
  obtain ⟨⟨out, s'⟩, hout⟩ := exists_eq_ok_of_isOk (x := (process samplePulses
    ((sampleSources ++ sampleSources.reverse).map (·.toSource))
    (sampleOptions.withDeviceNoise false)).yield 7) (by decide +kernel)
  exact ⟨hoff, out, s', hout, hsplit.symm.trans hout⟩

end Process

end PulseNoise
