import PulseNoise.Proofs.Answer

/-!
# Stages of a run

A run over any sources goes through stages, one behind each source. A source may fail, answer with
too few pulses or with an accumulator that is none, and remember whatever it likes between answers;
as long as it is left out or answers without a fault, the run comes to the next stage.

* `runSource_cases` says what one source can do to a workpiece, `runSources_keeps_ideal` that the
  accumulator of a run never gets an ideal term.
* `Passes` relates the stages before and after sources that give no cause to stop.
* `Passes.length_eq` and `Passes.ideal_eq_none` say what holds in every stage.
* `Passes.runSources_append` says that the fold goes through the stages.
* `exists_passes_or_failure` says that nothing else can happen than a first failure.
-/

namespace PulseNoise

variable {σ : Type}

/-! ## Stages of a run -/

/-- How far a run is: the workpiece, the state of the sources and the events so far. -/
structure Stage (σ : Type) where
  work : Workpiece
  state : σ
  events : List Event

namespace Source

/-- What is written down before a source is called. -/
def callEvent (source : Source σ) : Event := ⟨.debug, s!"applying noise '{source.name}'"⟩

/-- What is written down for a source that is left out. -/
def skipEvent (source : Source σ) : Event := ⟨.debug, s!"skipping device noise '{source.name}'"⟩

/-- The answer of a source that is called at a stage. -/
def answer (source : Source σ) (dims : List Nat) (stage : Stage σ) : Reply σ Outcome :=
  source.noisyPulses dims stage.work.pulses stage.work.accumulator stage.state

/-- Why a run over so many pulses stops at a source: its own error or the fault of its answer. -/
def failure? (source : Source σ) (count : Nat) : Except Error Outcome → Option Error
  | .error e => some e
  | .ok outcome => source.fault? count outcome

end Source

namespace Stage

/-- The stage after a source that was left out. -/
def skip (stage : Stage σ) (source : Source σ) : Stage σ :=
  { stage with events := stage.events ++ [source.skipEvent] }

/-- The events once a source was called. -/
def eventsAfter (stage : Stage σ) (source : Source σ) (dims : List Nat) : List Event :=
  stage.events ++ source.callEvent :: (source.answer dims stage).events

/-- The stage after a source that was called, with the outcome that it answered. -/
def call (stage : Stage σ) (source : Source σ) (dims : List Nat) (outcome : Outcome) : Stage σ :=
  ⟨outcome.onto stage.work, (source.answer dims stage).state, stage.eventsAfter source dims⟩

end Stage

/-- The stages before and after a list of sources, each of which is left out or answers without a
fault for a run over `count` pulses. -/
inductive Passes (deviceNoise : Bool) (dims : List Nat) (count : Nat) :
    List (Source σ) → Stage σ → Stage σ → Prop
  | nil (stage : Stage σ) : Passes deviceNoise dims count [] stage stage
  | skip {source : Source σ} {sources : List (Source σ)} {stage stage' : Stage σ}
      (hskip : isSkipped deviceNoise source = true)
      (hrest : Passes deviceNoise dims count sources (stage.skip source) stage') :
      Passes deviceNoise dims count (source :: sources) stage stage'
  | call {source : Source σ} {sources : List (Source σ)} {stage stage' : Stage σ}
      {outcome : Outcome} (hcall : isSkipped deviceNoise source = false)
      (hanswer : (source.answer dims stage).result = .ok outcome)
      (hfault : source.fault? count outcome = none)
      (hrest : Passes deviceNoise dims count sources (stage.call source dims outcome) stage') :
      Passes deviceNoise dims count (source :: sources) stage stage'

/-! ## One source -/

/-- A reply with the events before it. -/
def Reply.after {α : Type} (reply : Reply σ α) (events : List Event) : Reply σ α :=
  ⟨reply.result, reply.state, events ++ reply.events⟩

theorem Reply.after_append {α : Type} (reply : Reply σ α) (first second : List Event) :
    (reply.after second).after first = reply.after (first ++ second) :=
  congrArg (Reply.mk _ _) (List.append_assoc first second reply.events).symm

theorem runSource_of_skipped {deviceNoise : Bool} {source : Source σ}
    (h : isSkipped deviceNoise source = true) (dims : List Nat) (work : Workpiece) (s : σ) :
    runSource deviceNoise dims work source s = ⟨.ok work, s, [source.skipEvent]⟩ := by
  unfold runSource
  rw [if_pos h]
  rfl

theorem runSource_of_called {deviceNoise : Bool} {source : Source σ}
    (h : isSkipped deviceNoise source = false) (dims : List Nat) (stage : Stage σ) :
    runSource deviceNoise dims stage.work source stage.state =
      ⟨(source.answer dims stage).result >>= source.absorb stage.work,
        (source.answer dims stage).state,
        source.callEvent :: (source.answer dims stage).events⟩ := by
  have happly : runSource deviceNoise dims stage.work source stage.state =
      (source.apply dims stage.work stage.state).after [source.callEvent] := by
    unfold runSource
    rw [if_neg (Bool.eq_false_iff.1 h)]
    rfl
  rw [happly, Source.apply]
  rcases hanswer : source.answer dims stage with ⟨result, state, events⟩
  cases result with
  | error e =>
    rw [Action.run_bind_of_error hanswer]
    rfl
  | ok outcome =>
    rw [Action.run_bind_of_ok hanswer, Reply.after]
    exact congrArg (Reply.mk _ _) (congrArg (source.callEvent :: ·) (List.append_nil events))

theorem runSource_of_failure {deviceNoise : Bool} {source : Source σ} {dims : List Nat}
    {stage : Stage σ} {e : Error} (hcall : isSkipped deviceNoise source = false)
    (hfailure : source.failure? stage.work.pulses.length (source.answer dims stage).result =
      some e) :
    runSource deviceNoise dims stage.work source stage.state =
      ⟨.error e, (source.answer dims stage).state,
        source.callEvent :: (source.answer dims stage).events⟩ := by
  rw [runSource_of_called hcall]
  cases hanswer : (source.answer dims stage).result with
  | error e' =>
    rw [hanswer] at hfailure
    obtain rfl : e' = e := Option.some.inj hfailure
    rfl
  | ok outcome =>
    rw [hanswer] at hfailure
    have habsorb : source.absorb stage.work outcome = .error e := by
      rw [Source.absorb_eq, show source.fault? _ outcome = some e from hfailure]
    exact congrArg (Reply.mk · _ _) habsorb

theorem runSource_of_faultless {deviceNoise : Bool} {source : Source σ} {dims : List Nat}
    {stage : Stage σ} {outcome : Outcome} (hcall : isSkipped deviceNoise source = false)
    (hanswer : (source.answer dims stage).result = .ok outcome)
    (hfault : source.fault? stage.work.pulses.length outcome = none) :
    runSource deviceNoise dims stage.work source stage.state =
      ⟨.ok (outcome.onto stage.work), (source.answer dims stage).state,
        source.callEvent :: (source.answer dims stage).events⟩ := by
  have habsorb : source.absorb stage.work outcome = .ok (outcome.onto stage.work) := by
    rw [Source.absorb_eq, hfault]
  rw [runSource_of_called hcall, hanswer]
  exact congrArg (Reply.mk · _ _) habsorb

/-- What one source can make of a workpiece: it is left out, or it answers without a fault. -/
theorem runSource_cases {deviceNoise : Bool} {dims : List Nat} {source : Source σ}
    {work work' : Workpiece} {s s' : σ}
    (h : (runSource deviceNoise dims work source).yield s = .ok (work', s')) :
    (isSkipped deviceNoise source = true ∧ work' = work ∧ s' = s) ∨
      (isSkipped deviceNoise source = false ∧ ∃ outcome,
        (source.noisyPulses dims work.pulses work.accumulator).yield s = .ok (outcome, s') ∧
          source.fault? work.pulses.length outcome = none ∧ work' = outcome.onto work) := by
  obtain ⟨hresult, hstate⟩ := Action.yield_eq_ok_iff.1 h
  cases hskip : isSkipped deviceNoise source with
  | true =>
    rw [runSource_of_skipped hskip] at hresult hstate
    exact .inl ⟨rfl, (Except.ok.inj hresult).symm, hstate.symm⟩
  | false =>
    rw [runSource_of_called hskip dims ⟨work, s, []⟩] at hresult hstate
    obtain ⟨outcome, hanswer, habsorb⟩ := bind_eq_ok_iff.1 hresult
    rw [Source.absorb_eq] at habsorb
    split at habsorb
    · cases habsorb
    · rename_i hfault
      exact .inr ⟨rfl, outcome, Action.yield_eq_ok_iff.2 ⟨hanswer, hstate⟩, hfault,
        (Except.ok.inj habsorb).symm⟩

/-- No source, called or left out, leaves an accumulator with an ideal term. -/
theorem runSource_keeps_ideal {deviceNoise : Bool} {dims : List Nat} {source : Source σ}
    {work work' : Workpiece} {s s' : σ} (hideal : work.accumulator.ideal = none)
    (h : (runSource deviceNoise dims work source).yield s = .ok (work', s')) :
    work'.accumulator.ideal = none := by
  rcases runSource_cases h with ⟨-, rfl, -⟩ | ⟨-, outcome, -, hfault, rfl⟩
  · exact hideal
  · exact Source.ideal_onto_of_faultless hideal hfault

/-! ## The fold goes through the stages -/

theorem runSources_cons_of_ok {deviceNoise : Bool} {dims : List Nat} {source : Source σ}
    {work work' : Workpiece} {s s' : σ} {events : List Event}
    (h : runSource deviceNoise dims work source s = ⟨.ok work', s', events⟩)
    (sources : List (Source σ)) :
    runSources deviceNoise dims (source :: sources) work s =
      (runSources deviceNoise dims sources work' s').after events := by
  rw [runSources, List.foldlM_cons, Action.run_bind_of_ok h]
  rfl

theorem runSources_cons_of_error {deviceNoise : Bool} {dims : List Nat} {source : Source σ}
    {work : Workpiece} {s s' : σ} {e : Error} {events : List Event}
    (h : runSource deviceNoise dims work source s = ⟨.error e, s', events⟩)
    (sources : List (Source σ)) :
    runSources deviceNoise dims (source :: sources) work s = ⟨.error e, s', events⟩ := by
  rw [runSources, List.foldlM_cons, Action.run_bind_of_error h]

theorem runSources_concat (deviceNoise : Bool) (dims : List Nat) (sources : List (Source σ))
    (source : Source σ) (work : Workpiece) :
    runSources deviceNoise dims (sources ++ [source]) work =
      runSources deviceNoise dims sources work >>= fun mid =>
        runSource deviceNoise dims mid source := by
  unfold runSources
  rw [List.foldlM_append]
  congr 1
  funext mid
  rw [List.foldlM_cons]
  exact bind_pure _

theorem runSources_keeps_ideal {deviceNoise : Bool} {dims : List Nat} {sources : List (Source σ)}
    {work work' : Workpiece} {s s' : σ} (hideal : work.accumulator.ideal = none)
    (h : (runSources deviceNoise dims sources work).yield s = .ok (work', s')) :
    work'.accumulator.ideal = none := by
  refine Action.foldlM_carries
    (R := fun before after => before.accumulator.ideal = none → after.accumulator.ideal = none)
    ?_ ?_ ?_ h hideal
  · intro before hbefore
    exact hbefore
  · intro before between after hfirst hsecond hbefore
    exact hsecond (hfirst hbefore)
  · intro before source after t t' hstep hbefore
    exact runSource_keeps_ideal hbefore hstep

namespace Passes

variable {deviceNoise : Bool} {dims : List Nat} {count : Nat} {sources : List (Source σ)}
  {stage stage' : Stage σ}

/-- The number of pulses stays what it was from stage to stage. -/
theorem length_eq (h : Passes deviceNoise dims count sources stage stage')
    (hcount : stage.work.pulses.length = count) : stage'.work.pulses.length = count := by
  induction h with
  | nil => exact hcount
  | skip _ _ ih => exact ih hcount
  | call _ _ hfault _ ih =>
    subst hcount
    exact ih (Source.length_onto_of_faultless hfault)

/-- No accumulator on the way has an ideal term. -/
theorem ideal_eq_none (h : Passes deviceNoise dims count sources stage stage')
    (hideal : stage.work.accumulator.ideal = none) : stage'.work.accumulator.ideal = none := by
  induction h with
  | nil => exact hideal
  | skip _ _ ih => exact ih hideal
  | call _ _ hfault _ ih => exact ih (Source.ideal_onto_of_faultless hideal hfault)

theorem append {more : List (Source σ)} {stage'' : Stage σ}
    (h : Passes deviceNoise dims count sources stage stage')
    (hmore : Passes deviceNoise dims count more stage' stage'') :
    Passes deviceNoise dims count (sources ++ more) stage stage'' := by
  induction h with
  | nil => exact hmore
  | skip hskip _ ih => exact .skip hskip (ih hmore)
  | call hcall hanswer hfault _ ih => exact .call hcall hanswer hfault (ih hmore)

/-- Sources that give no cause to stop bring the fold from the stage before them to the stage
behind them, from which it goes on with the rest. -/
theorem runSources_append (h : Passes deviceNoise dims count sources stage stage')
    (hcount : stage.work.pulses.length = count) (rest : List (Source σ)) :
    (runSources deviceNoise dims (sources ++ rest) stage.work stage.state).after stage.events =
      (runSources deviceNoise dims rest stage'.work stage'.state).after stage'.events := by
  induction h with
  | nil => rfl
  | @skip source sources stage _ hskip _ ih =>
    have hstep := runSource_of_skipped hskip dims stage.work stage.state
    rw [List.cons_append, runSources_cons_of_ok hstep, Reply.after_append]
    exact ih hcount
  | @call source sources stage _ outcome hcall hanswer hfault _ ih =>
    subst hcount
    have hstep := runSource_of_faultless hcall hanswer hfault
    rw [List.cons_append, runSources_cons_of_ok hstep, Reply.after_append]
    exact ih (Source.length_onto_of_faultless hfault)

theorem runSources_eq (h : Passes deviceNoise dims count sources stage stage')
    (hcount : stage.work.pulses.length = count) :
    (runSources deviceNoise dims sources stage.work stage.state).after stage.events =
      ⟨.ok stage'.work, stage'.state, stage'.events⟩ := by
  have hrun := h.runSources_append hcount []
  rw [List.append_nil] at hrun
  exact hrun.trans (congrArg (Reply.mk _ _) (List.append_nil stage'.events))

end Passes

/-- The sources of a list all pass, or one of them is the first to fail. -/
theorem exists_passes_or_failure (deviceNoise : Bool) (dims : List Nat) (count : Nat)
    (sources : List (Source σ)) (stage : Stage σ) :
    (∃ stage', Passes deviceNoise dims count sources stage stage') ∨
      ∃ before source after stage' e, sources = before ++ source :: after ∧
        Passes deviceNoise dims count before stage stage' ∧
        isSkipped deviceNoise source = false ∧
        source.failure? count (source.answer dims stage').result = some e := by
  induction sources generalizing stage with
  | nil => exact .inl ⟨stage, .nil stage⟩
  | cons source sources ih =>
    cases hskip : isSkipped deviceNoise source with
    | true =>
      rcases ih (stage.skip source) with ⟨stage', hpasses⟩ | hfails
      · exact .inl ⟨stage', .skip hskip hpasses⟩
      · obtain ⟨before, failing, after, stage', e, rfl, hpasses, hcall, hfailure⟩ := hfails
        exact .inr ⟨source :: before, failing, after, stage', e, rfl, .skip hskip hpasses, hcall,
          hfailure⟩
    | false =>
      cases hfailure : source.failure? count (source.answer dims stage).result with
      | some e =>
        exact .inr ⟨[], source, sources, stage, e, rfl, .nil stage, hskip, hfailure⟩
      | none =>
        cases hanswer : (source.answer dims stage).result with
        | error e =>
          rw [hanswer] at hfailure
          cases hfailure
        | ok outcome =>
          rw [hanswer] at hfailure
          rcases ih (stage.call source dims outcome) with ⟨stage', hpasses⟩ | hfails
          · exact .inl ⟨stage', .call hskip hanswer hfailure hpasses⟩
          · obtain ⟨before, failing, after, stage', e, rfl, hpasses, hcall, hfailing⟩ := hfails
            exact .inr ⟨source :: before, failing, after, stage', e, rfl,
              .call hskip hanswer hfailure hpasses, hcall, hfailing⟩

end PulseNoise
