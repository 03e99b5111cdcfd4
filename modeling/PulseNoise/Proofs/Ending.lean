import PulseNoise.Proofs.Separation
import PulseNoise.Proofs.Stage
import PulseNoise.Proofs.Validation

/-!
# How a run ends

Whatever its sources do, a run ends in one of four ways, which `Ends` lists with all that the run
leaves behind: the result, the state of the sources and the events. An event is written down
before each source that is called, so that the events also tell which sources were.

* `passes_impliedRelaxation` says that the relaxation of accepted options is no cause to stop.
* `process_eq_iff_ends` says that a run ends as `Ends` says and in no other way.
-/

namespace PulseNoise

variable {σ : Type}

/-- The stage in which the sources of a run begin. -/
def Stage.start (pulses : List Pulse) (options : Options) (s : σ) : Stage σ :=
  ⟨⟨pulses, Pulse.systematic options.interpolation⟩, s, []⟩

/-- The four ways in which a run ends. -/
inductive Ends (pulses : List Pulse) (sources : List (Source σ)) (options : Options) (s : σ) :
    Reply σ (List Pulse) → Prop
  /-- The system does not resolve, and no source is called. -/
  | unresolved {e : Error} (hdims : options.system.resolve = .error e) :
      Ends pulses sources options s ⟨.error e, s, []⟩
  /-- Device noise is on and the options are refused, and no source is called. -/
  | refused {dims : List Nat} {e : Error} (hdims : options.system.resolve = .ok dims)
      (hdevice : options.deviceNoise = true) (hvalid : options.validate = .error e) :
      Ends pulses sources options s ⟨.error e, s, []⟩
  /-- A source of the list is the first to fail, and none behind it is called. -/
  | stopped {dims : List Nat} {before after : List (Source σ)} {source : Source σ}
      {stage : Stage σ} {e : Error} (hdims : options.system.resolve = .ok dims)
      (hvalid : options.deviceNoise = true → options.validate = .ok ())
      (hsources : sources = before ++ source :: after)
      (hpasses : Passes options.deviceNoise dims pulses.length before
        (Stage.start pulses options s) stage)
      (hcall : isSkipped options.deviceNoise source = false)
      (hfailure : source.failure? pulses.length (source.answer dims stage).result = some e) :
      Ends pulses sources options s
        ⟨.error e, (source.answer dims stage).state, stage.eventsAfter source dims⟩
  /-- Every source passes, the implied relaxation too. There are as many pulses as before, and
  with device noise on a last one that has no ideal term. -/
  | finished {dims : List Nat} {stage : Stage σ} (hdims : options.system.resolve = .ok dims)
      (hvalid : options.deviceNoise = true → options.validate = .ok ())
      (hpasses : Passes options.deviceNoise dims pulses.length (allSources sources options)
        (Stage.start pulses options s) stage)
      (hlength : stage.work.pulses.length = pulses.length)
      (hideal : stage.work.accumulator.ideal = none) :
      Ends pulses sources options s
        ⟨.ok (stage.work.pulses ++ if options.deviceNoise then [stage.work.accumulator] else []),
          stage.state,
          stage.events ++ (finish options.deviceNoise stage.work stage.state).events⟩

section Runs

variable {pulses : List Pulse} {sources : List (Source σ)} {options : Options} {s : σ}

/-- Options that were accepted imply a relaxation that passes: it is left out, or the check of the
options has made sure of its terms. -/
theorem passes_impliedRelaxation {dims : List Nat} (hdims : options.system.resolve = .ok dims)
    (hvalid : options.deviceNoise = true → options.validate = .ok ()) (stage : Stage σ)
    (hideal : stage.work.accumulator.ideal = none) :
    ∃ stage', Passes options.deviceNoise dims stage.work.pulses.length
      (options.impliedRelaxation.map (·.toSource)).toList stage stage' := by
  unfold Options.impliedRelaxation
  split
  · exact ⟨stage, .nil stage⟩
  · by_cases hdevice : options.deviceNoise = true
    · have hterms := hvalid hdevice
      rw [Options.validate_eq, hdims] at hterms
      obtain ⟨terms, hterms, -⟩ := map_eq_ok_iff.1 hterms
      let noise := Relaxation.ofTimes options.t1 options.t2
      let acc := stage.work.accumulator
      have hanswer := (noise.computes_noisyPulses dims stage.work.pulses acc).yield_eq_ok_iff
        (s := stage.state) |>.2 ⟨map_eq_ok_iff.2 ⟨terms, hterms, rfl⟩, rfl⟩
      refine ⟨_, .call ?_ (Action.yield_eq_ok_iff.1 hanswer).1 ?_ (.nil _)⟩
      · rw [hdevice]
        rfl
      · exact (BuiltIn.relaxation noise).fault?_eq_none hideal hanswer
    · refine ⟨_, .skip ?_ (.nil _)⟩
      rw [Bool.eq_false_iff.2 hdevice]
      rfl

theorem Ends.process_eq {reply : Reply σ (List Pulse)} (h : Ends pulses sources options s reply) :
    process pulses sources options s = reply := by
  cases h with
  | unresolved hdims => exact process_of_unresolved hdims pulses sources s
  | refused hdims hdevice hvalid => exact process_of_refused hdims hdevice hvalid pulses sources s
  | @stopped dims before after source stage e hdims hvalid hsources hpasses hcall hfailure =>
    subst hsources
    have hcount := hpasses.length_eq rfl
    rw [← hcount] at hfailure
    have hrun := hpasses.runSources_append rfl
      (source :: after ++ (options.impliedRelaxation.map (·.toSource)).toList)
    rw [List.cons_append, runSources_cons_of_error (runSource_of_failure hcall hfailure),
      ← List.cons_append, ← List.append_assoc] at hrun
    rw [process_of_accepted hdims hvalid]
    exact Action.run_bind_of_error hrun
  | @finished dims stage hdims hvalid hpasses =>
    have hrun := hpasses.runSources_eq rfl
    obtain ⟨hresult, hstate⟩ := Action.yield_eq_ok_iff.1
      (yield_finish options.deviceNoise stage.work stage.state)
    rw [process_of_accepted hdims hvalid, Action.run_bind_of_ok hrun, hresult, hstate]

theorem exists_ends (pulses : List Pulse) (sources : List (Source σ)) (options : Options) (s : σ) :
    ∃ reply, Ends pulses sources options s reply := by
  cases hdims : options.system.resolve with
  | error e => exact ⟨_, .unresolved hdims⟩
  | ok dims =>
    by_cases hvalid : options.deviceNoise = true → options.validate = .ok ()
    · rcases exists_passes_or_failure options.deviceNoise dims pulses.length sources
        (Stage.start pulses options s) with ⟨stage, hpasses⟩ | hfails
      · have hcount := hpasses.length_eq rfl
        have hideal := hpasses.ideal_eq_none rfl
        obtain ⟨stage', himplied⟩ := passes_impliedRelaxation hdims hvalid stage hideal
        rw [hcount] at himplied
        exact ⟨_, .finished hdims hvalid (hpasses.append himplied) (himplied.length_eq hcount)
          (himplied.ideal_eq_none hideal)⟩
      · obtain ⟨before, source, after, stage, e, hsources, hpasses, hcall, hfailure⟩ := hfails
        exact ⟨_, .stopped hdims hvalid hsources hpasses hcall hfailure⟩
    · obtain ⟨hdevice, hrefused⟩ := Classical.not_imp.1 hvalid
      cases hcheck : options.validate with
      | error e => exact ⟨_, .refused hdims hdevice hcheck⟩
      | ok _ => exact absurd hcheck hrefused

/-- **How a run ends.** A run over any sources leaves behind what `Ends` says, and nothing else:
the failure of its system, the failure of its options, the first failure of one of its sources
with no source called after it, or as many pulses as before, with device noise on followed by an
accumulator without an ideal term. -/
theorem process_eq_iff_ends (pulses : List Pulse) (sources : List (Source σ)) (options : Options)
    (s : σ) (reply : Reply σ (List Pulse)) :
    process pulses sources options s = reply ↔ Ends pulses sources options s reply := by
  constructor
  · rintro rfl
    obtain ⟨reply, hends⟩ := exists_ends pulses sources options s
    rw [hends.process_eq]
    exact hends
  · exact Ends.process_eq

end Runs

end PulseNoise
