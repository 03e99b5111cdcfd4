import PulseNoise.Pipeline
import PulseNoise.Proofs.Yield

/-!
# Answers and runs of any sources

A source may answer anything. `Source.fault?` says what is wrong with an answer for a run over a
given number of pulses, `Outcome.onto` what the workpiece becomes when nothing is.

* `Source.absorb_eq` says that an answer is taken in exactly when it has no fault.
* `Source.yield_apply_of_faultless` is one application of a source whose answers have none.
* `process_of_unresolved`, `process_of_refused` and `process_of_accepted` are the three ways in
  which a run goes on from its options.
-/

namespace PulseNoise

/-- The workpiece after an answer, with what the answer leaves out taken from the one before. -/
def Outcome.onto (work : Workpiece) : Outcome → Workpiece
  | .unchanged => work
  | .pulses noisy => { work with pulses := noisy }
  | .pulsesAndAccumulator noisy accumulator => ⟨noisy, accumulator⟩

namespace Source

variable {σ : Type}

/-- What is wrong with an answer when so many pulses were given: their number first, then an ideal
term in the accumulator. -/
def fault? (source : Source σ) (count : Nat) : Outcome → Option Error
  | .unchanged => none
  | .pulses noisy =>
    if noisy.length = count then none
    else some (.malformedOutput source.name (.pulseCount count noisy.length))
  | .pulsesAndAccumulator noisy accumulator =>
    if noisy.length = count then
      if accumulator.ideal = none then none
      else some (.malformedOutput source.name (.idealAccumulator accumulator.label))
    else some (.malformedOutput source.name (.pulseCount count noisy.length))

theorem checkCount_eq (source : Source σ) (expected got : Nat) :
    source.checkCount expected got = if got = expected then .ok ()
      else .error (.malformedOutput source.name (.pulseCount expected got)) := by
  simp only [checkCount, eq_comm]

theorem absorb_eq (source : Source σ) (work : Workpiece) (outcome : Outcome) :
    source.absorb work outcome = match source.fault? work.pulses.length outcome with
      | some e => .error e
      | none => .ok (outcome.onto work) := by
  cases outcome with
  | unchanged => rfl
  | pulses noisy =>
    simp only [absorb, fault?, checkCount_eq]
    split <;> rfl
  | pulsesAndAccumulator noisy accumulator =>
    simp only [absorb, fault?, checkCount_eq, checkAccumulator, Pulse.isSystematic,
      Option.isNone_iff_eq_none]
    split
    · split <;> rfl
    · rfl

/-- The number of pulses stays the same along answers without a fault. -/
theorem length_onto_of_faultless {source : Source σ} {work : Workpiece} {outcome : Outcome}
    (h : source.fault? work.pulses.length outcome = none) :
    (outcome.onto work).pulses.length = work.pulses.length := by
  cases outcome with
  | unchanged => rfl
  | pulses noisy =>
    simp only [fault?] at h
    split at h
    · assumption
    · cases h
  | pulsesAndAccumulator noisy accumulator =>
    simp only [fault?] at h
    split at h
    · assumption
    · cases h

/-- The accumulator stays without an ideal term along answers without a fault. -/
theorem ideal_onto_of_faultless {source : Source σ} {work : Workpiece} {outcome : Outcome}
    {count : Nat} (hwork : work.accumulator.ideal = none)
    (h : source.fault? count outcome = none) :
    (outcome.onto work).accumulator.ideal = none := by
  cases outcome with
  | unchanged => exact hwork
  | pulses noisy => exact hwork
  | pulsesAndAccumulator noisy accumulator =>
    simp only [fault?] at h
    split at h
    · split at h
      · assumption
      · cases h
    · cases h

theorem yield_apply_of_faultless {source : Source σ} {dims : List Nat} {work : Workpiece} {s : σ}
    (h : ∀ outcome t, (source.noisyPulses dims work.pulses work.accumulator).yield s =
      .ok (outcome, t) → source.fault? work.pulses.length outcome = none) :
    (source.apply dims work).yield s =
      (fun p => (p.1.onto work, p.2)) <$>
        (source.noisyPulses dims work.pulses work.accumulator).yield s := by
  rw [apply, Action.yield_bind]
  cases hanswer : (source.noisyPulses dims work.pulses work.accumulator).yield s with
  | error e => rfl
  | ok p =>
    change (Action.ofExcept (source.absorb work p.1)).yield p.2 = _
    rw [absorb_eq, h p.1 p.2 hanswer]
    rfl

end Source

/-! ## Runs -/

section Process

variable {σ : Type} {options : Options} {dims : List Nat} {e : Error}

theorem process_of_unresolved (h : options.system.resolve = .error e) (pulses : List Pulse)
    (sources : List (Source σ)) (s : σ) :
    process pulses sources options s = ⟨.error e, s, []⟩ := by
  unfold process
  rw [h]
  rfl

theorem process_of_refused (hdims : options.system.resolve = .ok dims)
    (hdevice : options.deviceNoise = true) (h : options.validate = .error e)
    (pulses : List Pulse) (sources : List (Source σ)) (s : σ) :
    process pulses sources options s = ⟨.error e, s, []⟩ := by
  simp only [process, hdims, hdevice, if_true, h]
  rfl

/-- With acceptable options a run is the fold over its sources and then its end. -/
theorem process_of_accepted (hdims : options.system.resolve = .ok dims)
    (hvalid : options.deviceNoise = true → options.validate = .ok ()) (pulses : List Pulse)
    (sources : List (Source σ)) :
    process pulses sources options =
      runSources options.deviceNoise dims (allSources sources options)
        ⟨pulses, Pulse.systematic options.interpolation⟩ >>= finish options.deviceNoise := by
  simp only [process, hdims]
  by_cases hdevice : options.deviceNoise = true
  · simp only [hdevice, if_true, hvalid hdevice]
    rfl
  · simp only [hdevice]
    rfl

theorem yield_finish (deviceNoise : Bool) (work : Workpiece) (s : σ) :
    (finish deviceNoise work).yield s =
      .ok (work.pulses ++ (if deviceNoise then [work.accumulator] else []), s) := by
  unfold finish
  split
  · rfl
  · rw [List.append_nil]
    rfl

theorem yield_process_eq_ok_iff {pulses out : List Pulse} {sources : List (Source σ)} {s s' : σ} :
    (process pulses sources options).yield s = .ok (out, s') ↔
      ∃ dims work, options.system.resolve = .ok dims ∧
        (options.deviceNoise = true → options.validate = .ok ()) ∧
        (runSources options.deviceNoise dims (allSources sources options)
          ⟨pulses, Pulse.systematic options.interpolation⟩).yield s = .ok (work, s') ∧
        out = work.pulses ++ (if options.deviceNoise then [work.accumulator] else []) := by
  constructor
  · intro h
    have hresult := (Action.yield_eq_ok_iff.1 h).1
    cases hdims : options.system.resolve with
    | error e =>
      rw [process_of_unresolved hdims] at hresult
      cases hresult
    | ok dims =>
      have hvalid : options.deviceNoise = true → options.validate = .ok () := by
        intro hdevice
        cases hv : options.validate with
        | error e =>
          rw [process_of_refused hdims hdevice hv] at hresult
          cases hresult
        | ok _ => rfl
      rw [process_of_accepted hdims hvalid] at h
      obtain ⟨work, t, hrun, hend⟩ := Action.yield_bind_eq_ok_iff.1 h
      rw [yield_finish] at hend
      cases hend
      exact ⟨dims, work, rfl, hvalid, hrun, rfl⟩
  · rintro ⟨dims, work, hdims, hvalid, hrun, rfl⟩
    rw [process_of_accepted hdims hvalid]
    exact Action.yield_bind_eq_ok_iff.2 ⟨work, s', hrun, yield_finish _ work s'⟩

end Process

end PulseNoise
