import PulseNoise.Proofs.Stage
import PulseNoise.Proofs.Validation

/-!
# Relaxation times as a shorthand

The relaxation times of the options stand for a source at the end of the list. With device noise
on the options check the times before anything runs, where the source would look at them after all
others; whatever these have done to the pulses and the accumulator, the two agree on whether the
times are accepted.

* `yield_runSource_relaxation` is what a relaxation makes of a workpiece.
* `Options.validate_of_runSources` says that a run up to the written-out relaxation has checked the
  times.
* `process_shorthand` compares the two runs.
-/

namespace PulseNoise

variable {σ : Type}

/-! ## Options without times -/

/-- The options with the relaxation times taken out. -/
def Options.untimed (options : Options) : Options := { options with t1 := none, t2 := none }

/-- The sources with the relaxation of the times written out as the last one. -/
def writtenOut (sources : List (Source σ)) (options : Options) : List (Source σ) :=
  sources ++ [(Relaxation.ofTimes options.t1 options.t2).toSource]

theorem allSources_untimed (sources : List (Source σ)) (options : Options) :
    allSources sources options.untimed = sources := List.append_nil sources

/-- Without times no qubit relaxes. -/
theorem Relaxation.terms_untimed (dims : List Nat) : (ofTimes none none).terms dims = .ok [] := by
  let times : List (Option Float) := List.replicate dims.length none
  have hqubit : ∀ q ∈ List.range dims.length, qubitTerms dims times times q = .ok [] := by
    intro q hq
    have hlt : q < dims.length := List.mem_range.1 hq
    have htimes : times[q]? = some none := List.getElem?_replicate_of_lt hlt
    rw [qubitTerms_eq (List.getElem?_eq_getElem hlt) htimes htimes]
    rfl
  have hloop : (List.range dims.length).mapM (qubitTerms dims times times) =
      .ok ((List.range dims.length).map fun _ => []) := by
    rw [mapM_eq_ok_iff, List.forall₂_map_right_iff, List.forall₂_same]
    exact hqubit
  have hterms : (ofTimes none none).terms dims =
      checkTargets (List.range dims.length) dims.length >>= fun _ =>
        List.flatten <$> (List.range dims.length).mapM (qubitTerms dims times times) := rfl
  rw [hterms, checkTargets_range, hloop, List.map_const']
  exact congrArg Except.ok List.flatten_replicate_nil

theorem Options.validate_of_resolve {options : Options} {dims : List Nat}
    (hdims : options.system.resolve = .ok dims) :
    options.validate = (fun _ => ()) <$> (Relaxation.ofTimes options.t1 options.t2).terms dims := by
  rw [validate_eq, hdims]
  rfl

theorem Options.validate_untimed {options : Options} {dims : List Nat}
    (hdims : options.system.resolve = .ok dims) : options.untimed.validate = .ok () := by
  have hvalidate : options.untimed.validate =
      (fun _ => ()) <$> (Relaxation.ofTimes none none).terms dims := validate_of_resolve hdims
  rw [hvalidate, Relaxation.terms_untimed]
  rfl

/-! ## A relaxation at the end of a list -/

section Runs

variable {dims : List Nat} {sources : List (Source σ)} {work work' : Workpiece} {s s' : σ}

/-- With device noise on a relaxation appends its terms to the accumulator or fails. -/
theorem yield_runSource_relaxation (noise : Relaxation) (dims : List Nat)
    (hideal : work.accumulator.ideal = none) (s : σ) :
    (runSource true dims work noise.toSource).yield s =
      (fun ts => ({ work with accumulator := work.accumulator.appendLindblad ts }, s)) <$>
        noise.terms dims := by
  have hstep := (BuiltIn.relaxation noise).yield_runSource true dims hideal s
  have hwrite : ((BuiltIn.relaxation noise).write work.pulses).yield s =
      .ok (work.pulses, s) := rfl
  have hcontribution : (BuiltIn.relaxation noise : BuiltIn σ).contributionIn true dims =
      Contribution.ofLindblad <$> noise.terms dims := rfl
  rw [BuiltIn.toSource, hwrite, hcontribution] at hstep
  rw [hstep]
  cases noise.terms dims with
  | error e => rfl
  | ok ts =>
    change Except.ok (Workpiece.mk work.pulses (work.accumulator.extend (.ofLindblad ts)), s) = _
    rw [work.accumulator.extend_ofLindblad]
    rfl

/-- A run over sources and then a relaxation, with device noise on, depends on the relaxation
through its terms alone. -/
theorem yield_runSources_relaxation (noise : Relaxation) (dims : List Nat)
    (hideal : work.accumulator.ideal = none) (s : σ) :
    (runSources true dims (sources ++ [noise.toSource]) work).yield s = do
      let p ← (runSources true dims sources work).yield s
      let ts ← noise.terms dims
      return ({ p.1 with accumulator := p.1.accumulator.appendLindblad ts }, p.2) := by
  rw [runSources_concat, Action.yield_bind]
  cases hrun : (runSources true dims sources work).yield s with
  | error e => rfl
  | ok p =>
    change (runSource true dims p.1 noise.toSource).yield p.2 = _
    rw [yield_runSource_relaxation noise dims (runSources_keeps_ideal hideal hrun)]
    cases noise.terms dims <;> rfl

end Runs

/-! ## The two runs -/

section Process

variable {options : Options} {dims : List Nat} {sources : List (Source σ)} {work work' : Workpiece}
  {s s' : σ}

/-- A run that gets past the relaxation of the times has checked them. -/
theorem Options.validate_of_runSources (hdims : options.system.resolve = .ok dims)
    (hideal : work.accumulator.ideal = none)
    (h : (runSources true dims (writtenOut sources options) work).yield s = .ok (work', s')) :
    options.validate = .ok () := by
  rw [writtenOut, yield_runSources_relaxation _ dims hideal] at h
  obtain ⟨p, -, h⟩ := bind_eq_ok_iff.1 h
  obtain ⟨ts, hterms, -⟩ := bind_eq_ok_iff.1 h
  rw [validate_of_resolve hdims]
  exact map_eq_ok_iff.2 ⟨ts, hterms, rfl⟩

/-- A refused time is found by the relaxation too, behind sources that all pass. -/
theorem yield_runSources_of_refused {e : Error} (hdims : options.system.resolve = .ok dims)
    (hrefused : options.validate = .error e) (hideal : work.accumulator.ideal = none)
    (hsources : (runSources true dims sources work).yield s = .ok (work', s')) :
    (runSources true dims (writtenOut sources options) work).yield s = .error e := by
  rw [Options.validate_of_resolve hdims] at hrefused
  have hterms : (Relaxation.ofTimes options.t1 options.t2).terms dims = .error e :=
    map_eq_error_iff.1 hrefused
  rw [writtenOut, yield_runSources_relaxation _ dims hideal, hsources, hterms]
  rfl

/-- The relaxation can be written out whether there are times or not: without them it adds
nothing. -/
theorem yield_runSources_writtenOut (options : Options) (dims : List Nat)
    (sources : List (Source σ)) (hideal : work.accumulator.ideal = none) (s : σ) :
    (runSources options.deviceNoise dims (allSources sources options) work).yield s =
      (runSources options.deviceNoise dims (writtenOut sources options) work).yield s := by
  unfold allSources writtenOut Options.impliedRelaxation
  split
  · rename_i htimes
    obtain ⟨h1, h2⟩ := Bool.and_eq_true_iff.1 htimes
    rw [Option.isNone_iff_eq_none.1 h1, Option.isNone_iff_eq_none.1 h2]
    change (runSources options.deviceNoise dims (sources ++ []) work).yield s = _
    rw [List.append_nil]
    cases hdevice : options.deviceNoise with
    | true =>
      rw [yield_runSources_relaxation _ dims hideal, Relaxation.terms_untimed]
      cases (runSources true dims sources work).yield s with
      | error e => rfl
      | ok p =>
        change Except.ok p =
          .ok ({ p.1 with accumulator := p.1.accumulator.appendLindblad [] }, p.2)
        rw [Pulse.appendLindblad_nil]
    | false =>
      rw [runSources_concat, Action.yield_bind]
      cases (runSources false dims sources work).yield s <;> rfl
  · rfl

theorem yield_process_writtenOut_eq_ok_iff {pulses out : List Pulse} :
    (process pulses sources options).yield s = .ok (out, s') ↔
      (process pulses (writtenOut sources options) options.untimed).yield s = .ok (out, s') := by
  rw [yield_process_eq_ok_iff, yield_process_eq_ok_iff]
  simp only [allSources_untimed]
  constructor
  · rintro ⟨dims, work, hdims, hvalid, hrun, hout⟩
    rw [yield_runSources_writtenOut options dims sources rfl] at hrun
    exact ⟨dims, work, hdims, fun _ => Options.validate_untimed hdims, hrun, hout⟩
  · rintro ⟨dims, work, hdims, -, hrun, hout⟩
    refine ⟨dims, work, hdims, ?_, ?_, hout⟩
    · intro hdevice
      change (runSources options.deviceNoise dims _ _).yield s = _ at hrun
      rw [hdevice] at hrun
      exact Options.validate_of_runSources hdims rfl hrun
    · rw [yield_runSources_writtenOut options dims sources rfl]
      exact hrun

theorem process_of_validate_error {e : Error} (hdevice : options.deviceNoise = true)
    (hrefused : options.validate = .error e) (pulses : List Pulse) (sources : List (Source σ))
    (s : σ) : process pulses sources options s = ⟨.error e, s, []⟩ := by
  cases hdims : options.system.resolve with
  | error e' =>
    rw [Options.validate_eq, hdims] at hrefused
    obtain rfl : e' = e := Except.error.inj hrefused
    exact process_of_unresolved hdims pulses sources s
  | ok dims => exact process_of_refused hdims hdevice hrefused pulses sources s

/-- Behind sources with which a run succeeds, the relaxation of times that are refused fails as the
check of the options does. -/
theorem yield_process_writtenOut_of_refused {e : Error} (hdevice : options.deviceNoise = true)
    (hrefused : options.validate = .error e) {pulses out : List Pulse}
    (h : (process pulses sources options.untimed).yield s = .ok (out, s')) :
    (process pulses (writtenOut sources options) options.untimed).yield s = .error e := by
  obtain ⟨dims, work, hdims, hvalid, hrun, -⟩ := yield_process_eq_ok_iff.1 h
  rw [allSources_untimed] at hrun
  change (runSources options.deviceNoise dims sources _).yield s = _ at hrun
  rw [hdevice] at hrun
  have hresolves : options.system.resolve = .ok dims := hdims
  have hfails := yield_runSources_of_refused hresolves hrefused rfl hrun
  rw [process_of_accepted hdims hvalid, allSources_untimed, Action.yield_bind]
  change (runSources options.deviceNoise dims _ _).yield s >>= _ = _
  rw [hdevice, show (runSources true dims _ _).yield s = .error e from hfails]
  rfl

/-- **Relaxation times are a shorthand.** A run with relaxation times in its options and the run
with the times taken out and their relaxation as the last source succeed together; they return the
same pulses, the accumulator included, and leave the sources in the same state. With device noise
on, times that are refused stop the first run before any source is called, and the second one at
its last source with the same error, unless a source before that one fails. -/
theorem process_shorthand (pulses : List Pulse) (sources : List (Source σ)) (options : Options)
    (s : σ) :
    (∀ out s',
      (process pulses sources options s).result = .ok out ∧
          (process pulses sources options s).state = s' ↔
        (process pulses (writtenOut sources options) options.untimed s).result = .ok out ∧
          (process pulses (writtenOut sources options) options.untimed s).state = s') ∧
      ∀ e, options.deviceNoise = true → options.validate = .error e →
        process pulses sources options s = ⟨.error e, s, []⟩ ∧
          ∀ out, (process pulses sources options.untimed s).result = .ok out →
            (process pulses (writtenOut sources options) options.untimed s).result = .error e := by
  refine ⟨?_, ?_⟩
  · intro out s'
    rw [← Action.yield_eq_ok_iff, ← Action.yield_eq_ok_iff]
    exact yield_process_writtenOut_eq_ok_iff
  · intro e hdevice hrefused
    refine ⟨process_of_validate_error hdevice hrefused pulses sources s, ?_⟩
    intro out hout
    rw [← Action.yield_eq_error_iff]
    exact yield_process_writtenOut_of_refused hdevice hrefused
      (Action.yield_eq_ok_iff.2 ⟨hout, rfl⟩)

end Process

end PulseNoise
